import Bmx.Interaction.Program

/-!
# Contracts

A contract says when a question may be asked and what its answer guarantees. A program meets a
contract when it asks every question only where that is allowed and ends in a state its
postcondition accepts, whatever answers the contract admits. The precondition of the questions is
also the crash invariant: the states in which a run can be interrupted are the states in which a
question is asked.
-/

namespace Interaction

structure Contract (S : Signature) (σ : Type) where
  pre : S.Op → σ → Prop
  post : Env S σ

/-- Surroundings as a contract whose questions are all asked in states satisfying `inv`. -/
def Env.under {S : Signature} {σ : Type} (E : Env S σ) (inv : σ → Prop) : Contract S σ :=
  ⟨fun _ s => inv s, E⟩

namespace Program

variable {S T : Signature} {α β σ τ : Type}

/-- The program asks only what the contract allows and every end satisfies `Q`. -/
def Holds (C : Contract S σ) (Q : α → σ → Prop) : Program S α → σ → Prop
  | done value, s => Q value s
  | call op next, s => C.pre op s ∧ ∀ answer s', C.post op s answer s' → (next answer).Holds C Q s'

variable {C : Contract S σ} {Q P : α → σ → Prop} {s : σ} {p : Program S α}

@[simp] theorem holds_done {value : α} :
    (done value).Holds C Q s ↔ Q value s := Iff.rfl

@[simp] theorem holds_call {op : S.Op} {next : S.Answer op → Program S α} :
    (call op next).Holds C Q s ↔
      C.pre op s ∧ ∀ answer s', C.post op s answer s' → (next answer).Holds C Q s' := Iff.rfl

theorem holds_bind {Q : β → σ → Prop} (p : Program S α) (f : α → Program S β) (s : σ) :
    (p >>= f).Holds C Q s ↔ p.Holds C (fun a s' => (f a).Holds C Q s') s := by
  induction p generalizing s with
  | done value => rfl
  | call op next ih =>
    refine and_congr_right fun _ => ?_
    exact forall_congr' fun answer => forall_congr' fun s' => imp_congr_right fun _ => ih answer s'

theorem Holds.bind {Q : β → σ → Prop} {f : α → Program S β} (hp : p.Holds C P s)
    (hf : ∀ a s', P a s' → (f a).Holds C Q s') : (p >>= f).Holds C Q s := by
  induction p generalizing s with
  | done value => exact hf _ _ hp
  | call op next ih => exact ⟨hp.1, fun answer s' hpost => ih answer (hp.2 answer s' hpost)⟩

theorem Holds.mono (hp : p.Holds C P s) (hPQ : ∀ a s', P a s' → Q a s') : p.Holds C Q s := by
  induction p generalizing s with
  | done value => exact hPQ _ _ hp
  | call op next ih => exact ⟨hp.1, fun answer s' hpost => ih answer (hp.2 answer s' hpost)⟩

theorem Holds.and (hP : p.Holds C P s) (hQ : p.Holds C Q s) : p.Holds C (fun a s' => P a s' ∧ Q a s') s := by
  induction p generalizing s with
  | done value => exact ⟨hP, hQ⟩
  | call op next ih =>
    exact ⟨hP.1, fun answer s' hpost => ih answer (hP.2 answer s' hpost) (hQ.2 answer s' hpost)⟩

/-- A program meets every contract that asks for less and promises more. -/
theorem Holds.contract_mono {D : Contract S σ} (hp : p.Holds C Q s) (hpre : ∀ op s, C.pre op s → D.pre op s)
    (hpost : ∀ op s answer s', C.pre op s → D.post op s answer s' → C.post op s answer s') : p.Holds D Q s := by
  induction p generalizing s with
  | done value => exact hp
  | call op next ih =>
    exact ⟨hpre op s hp.1, fun answer s' h => ih answer (hp.2 answer s' (hpost op s answer s' hp.1 h))⟩

end Program

/-! ### Programs that keep to some questions -/

namespace Program

variable {S : Signature} {α β σ : Type} {allowed : S.Op → Prop}

/-- Whatever the answers, the program asks only questions of this kind. -/
def Asks (allowed : S.Op → Prop) : Program S α → Prop
  | done _ => True
  | call op next => allowed op ∧ ∀ answer, (next answer).Asks allowed

theorem asks_perform {op : S.Op} (hop : allowed op) : (perform op).Asks allowed :=
  ⟨hop, fun _ => trivial⟩

variable {p : Program S α}

theorem Asks.bind {f : α → Program S β} (hp : p.Asks allowed)
    (hf : ∀ a, (f a).Asks allowed) : (p >>= f).Asks allowed := by
  induction p with
  | done value => exact hf value
  | call op next ih => exact ⟨hp.1, fun answer => ih answer (hp.2 answer)⟩

theorem Asks.holds {C : Contract S σ} {inv : σ → Prop} (hp : p.Asks allowed)
    (hpre : ∀ op s, allowed op → inv s → C.pre op s)
    (hstep : ∀ op s answer s', allowed op → inv s → C.post op s answer s' → inv s') {s : σ}
    (hs : inv s) : p.Holds C (fun _ => inv) s := by
  induction p generalizing s with
  | done value => exact hs
  | call op next ih =>
    exact ⟨hpre op s hp.1 hs, fun answer s' hpost =>
      ih answer (hp.2 answer) (hstep op s answer s' hp.1 hs hpost)⟩

end Program

/-! ### Soundness against runs -/

section Soundness

variable {S : Signature} {α σ : Type} {E : Env S σ} {inv : σ → Prop} {Q : α → σ → Prop}

variable {p q : Program S α} {s s' : σ} {events : List (Event S)}

theorem Steps.holds (hsteps : Steps E p s events q s') (hp : p.Holds (E.under inv) Q s) :
    q.Holds (E.under inv) Q s' := by
  induction hsteps with
  | refl p s => exact hp
  | step hanswer _ ih => exact ih (hp.2 _ _ hanswer)

theorem Completes.holds {value : α}
    (hrun : Completes E p s events value s') (hp : p.Holds (E.under inv) Q s) : Q value s' :=
  Steps.holds hrun hp

/-- Every state a run passes through, finished or interrupted, satisfies the invariant. -/
theorem Steps.invariant
    (hsteps : Steps E p s events q s') (hp : p.Holds (E.under inv) (fun a s => inv s ∧ Q a s) s) : inv s' := by
  have hq := hsteps.holds hp
  cases q with
  | done value => exact hq.1
  | call op next => exact hq.1

theorem Steps.env_mono {E' : Env S σ} (hsub : ∀ op s answer s', E op s answer s' → E' op s answer s')
     (hsteps : Steps E p s events q s') : Steps E' p s events q s' := by
  induction hsteps with
  | refl p s => exact .refl p s
  | step hanswer _ ih => exact .step (hsub _ _ _ _ hanswer) ih

end Soundness

/-! ### Observers

An observer folds the exchanges of a run into a state of its own, without taking part in it. -/

section Observers

variable {S : Signature} {α σ ω : Type}

def Env.observed (E : Env S σ) (observe : ω → Event S → ω) : Env S (σ × ω) :=
  fun op s answer s' => E op s.1 answer s'.1 ∧ s'.2 = observe s.2 ⟨op, answer⟩

variable {E : Env S σ} {p q : Program S α} {s s' : σ} {events past : List (Event S)} {allowed : S.Op → Prop}
  {Q : α → List (Event S) → Prop}

theorem Steps.observed (observe : ω → Event S → ω) (hsteps : Steps E p s events q s') (w : ω) :
    Steps (E.observed observe) p (s, w) events q (s', events.foldl observe w) := by
  induction hsteps generalizing w with
  | refl p s => exact .refl _ _
  | @step op next s s' s'' answer events q hanswer hrest ih =>
    exact Steps.step (E := E.observed observe) ⟨hanswer, rfl⟩ (ih _)

theorem Program.Holds.unobserved {inv : σ → Prop} {observe : ω → Event S → ω} {Q : α → σ × ω → Prop} {w : ω}
    (hp : p.Holds ((E.observed observe).under fun t => inv t.1) Q (s, w)) :
    p.Holds (E.under inv) (fun a s' => ∃ w', Q a (s', w')) s := by
  induction p generalizing s w with
  | done value => exact ⟨w, hp⟩
  | call op next ih =>
    refine ⟨hp.1, fun answer s' hanswer => ?_⟩
    exact ih answer (hp.2 answer (s', observe w ⟨op, answer⟩) ⟨hanswer, rfl⟩)

/-- Surroundings that answer these questions in any way and remember every exchange. -/
def historyContract (S : Signature) (allowed : S.Op → Prop) : Contract S (List (Event S)) where
  pre op _ := allowed op
  post op past answer now := now = past ++ [⟨op, answer⟩]

/-- A finished run against surroundings that answer anything. -/
def AnyRun (p : Program S α) (events : List (Event S)) (value : α) : Prop :=
  Completes (anyEnv S) p () events value ()

theorem run_anyRun (h : Handler S σ) (p : Program S α) (s : σ) : AnyRun p (p.run h s).1 (p.run h s).2.1 := by
  induction p generalizing s with
  | done value => exact .refl _ _
  | call op next ih => exact .step trivial (ih _ _)

/-- A run of two programs in a row is a run of the first and one of the second. -/
theorem AnyRun.of_bind {β : Type} {p : Program S α} {f : α → Program S β} {value : β}
    (hrun : AnyRun (p >>= f) events value) :
    ∃ first later a, events = first ++ later ∧ AnyRun p first a ∧ AnyRun (f a) later value := by
  induction p generalizing events with
  | done a => exact ⟨[], events, a, rfl, .refl _ _, hrun⟩
  | call op next ih =>
    cases hrun with
    | step hanswer hrest =>
      obtain ⟨first, later, a, rfl, hfirst, hlater⟩ := ih _ hrest
      exact ⟨_ :: first, later, a, rfl, .step trivial hfirst, hlater⟩

/-- What is shown of the recorded exchanges holds of the exchanges of every run. -/
theorem Steps.history (hsteps : Steps E p s events q s')
    (hp : p.Holds (historyContract S allowed) Q past) : q.Holds (historyContract S allowed) Q (past ++ events) := by
  induction hsteps generalizing past with
  | refl p s => rwa [List.append_nil]
  | step hanswer _ ih =>
    have hnext := ih (hp.2 _ _ rfl)
    rwa [List.append_assoc, List.singleton_append] at hnext

theorem Program.Holds.after (hp : p.Holds (historyContract S allowed) Q past) (before : List (Event S)) :
    p.Holds (historyContract S allowed) (fun a now => ∃ new, now = before ++ new ∧ Q a new)
      (before ++ past) := by
  induction p generalizing past with
  | done value => exact ⟨past, rfl, hp⟩
  | call op next ih =>
    refine ⟨hp.1, ?_⟩
    rintro answer now rfl
    rw [List.append_assoc]
    exact ih answer (hp.2 answer _ rfl)

theorem AnyRun.holds {value : α} (hrun : AnyRun p events value)
    (hp : p.Holds (historyContract S allowed) Q []) : Q value events := Steps.history hrun hp

end Observers

end Interaction
