import Bmx.Interaction.Contract

/-!
# Programs with early returns

A function that leaves early with a status is a program whose result is either a value or that
status. Its contract has two postconditions, one for the end of the function and one for the early
returns.
-/

namespace Interaction

/-- A program over `S` that may stop early with an `ε`. -/
abbrev Fallible (S : Signature) (ε : Type) := ExceptT ε (Program S)

namespace Fallible

variable {S : Signature} {ε α β σ : Type}

/-- Stop with `status` unless the condition holds. -/
def require (condition : Prop) [Decidable condition] (status : ε) : Fallible S ε Unit :=
  if condition then pure () else throw status

def ask (op : S.Op) : Fallible S ε (S.Answer op) := ExceptT.lift (Program.perform op)

/-- Every normal end satisfies `Q` and every early return satisfies `R`. -/
def Upholds (C : Contract S σ) (Q : α → σ → Prop) (R : ε → σ → Prop) (p : Fallible S ε α)
    (s : σ) : Prop :=
  Program.Holds C (fun result s' => match result with
    | .ok value => Q value s'
    | .error status => R status s') p.run s

variable {C : Contract S σ} {Q : α → σ → Prop} {R : ε → σ → Prop} {s : σ}

variable {value : α} {status : ε} {op : S.Op} {condition : Prop} {p : Fallible S ε α} {f : α → Fallible S ε β}
  {events : List (Event S)} {P : α → Prop} {q : Program S (Except ε α)}

@[simp] theorem upholds_pure :
    Upholds C Q R (pure value : Fallible S ε α) s ↔ Q value s := Iff.rfl

@[simp] theorem upholds_throw :
    Upholds C Q R (throw status : Fallible S ε α) s ↔ R status s := Iff.rfl

theorem upholds_bind {Q : β → σ → Prop} (p : Fallible S ε α) (f : α → Fallible S ε β) :
    Upholds C Q R (p >>= f) s ↔ Upholds C (fun a s' => Upholds C Q R (f a) s') R p s := by
  unfold Upholds
  change Program.Holds C _ (p.run >>= ExceptT.bindCont f) s ↔ _
  rw [Program.holds_bind]
  constructor
  all_goals
    intro h
    refine h.mono fun result s' hresult => ?_
    cases result with
    | ok value => exact hresult
    | error status => exact hresult

@[simp] theorem upholds_ask {Q : S.Answer op → σ → Prop} :
    Upholds C Q R (ask op : Fallible S ε (S.Answer op)) s ↔
      C.pre op s ∧ ∀ answer s', C.post op s answer s' → Q answer s' := Iff.rfl

theorem upholds_ask_bind {f : S.Answer op → Fallible S ε α} :
    Upholds C Q R (ask op >>= f) s ↔
      C.pre op s ∧ ∀ answer s', C.post op s answer s' → Upholds C Q R (f answer) s' :=
  upholds_bind _ _

@[simp] theorem upholds_lift {p : Program S α} :
    Upholds C Q R (ExceptT.lift p : Fallible S ε α) s ↔ p.Holds C Q s := by
  change Program.Holds C _ (p >>= fun a => Program.done (Except.ok a)) s ↔ _
  rw [Program.holds_bind]
  rfl

@[simp] theorem upholds_require [Decidable condition] {Q : Unit → σ → Prop} :
    Upholds C Q R (require condition status : Fallible S ε Unit) s ↔
      (condition → Q () s) ∧ (¬ condition → R status s) := by
  unfold require
  by_cases hcondition : condition
  · simp [hcondition]
  · simp [hcondition]

theorem Upholds.mono {Q' : α → σ → Prop} {R' : ε → σ → Prop}
    (hp : Upholds C Q R p s) (hQ : ∀ a s', Q a s' → Q' a s') (hR : ∀ e s', R e s' → R' e s') :
    Upholds C Q' R' p s := by
  refine Program.Holds.mono hp fun result s' hresult => ?_
  cases result with
  | ok value => exact hQ _ _ hresult
  | error status => exact hR _ _ hresult

theorem Upholds.bind {P : α → σ → Prop} {Q : β → σ → Prop} (hp : Upholds C P R p s)
    (hf : ∀ a s', P a s' → Upholds C Q R (f a) s') : Upholds C Q R (p >>= f) s :=
  (upholds_bind p f).2 (hp.mono hf fun _ _ h => h)

/-- Surroundings that answer anything, for facts about the values a program can reach. -/
def anyContract (S : Signature) : Contract S Unit := ⟨fun _ _ => True, anyEnv S⟩

theorem holds_any (p : Program S α) : p.Holds (anyContract S) (fun _ _ => True) () := by
  induction p with
  | done value => exact trivial
  | call op next ih => exact ⟨trivial, fun answer _ _ => ih answer⟩

theorem anyRun_holds {p : Program S α}
    (hrun : AnyRun p events value) {Q : α → Unit → Prop} (hp : p.Holds (anyContract S) Q ()) : Q value () := by
  have hunder : p.Holds ((anyEnv S).under fun _ => True) Q () := hp
  exact Completes.holds hrun hunder

/-! ### Extensions -/

/-- `q` goes through every run of `p` that does not stop early, and ends with the same value, of which `P` holds. -/
inductive Extends (P : α → Prop) : Program S (Except ε α) → Program S (Except ε α) → Prop
  | ok {value : α} (h : P value) : Extends P (.done (.ok value)) (.done (.ok value))
  | error {status : ε} (q : Program S (Except ε α)) : Extends P (.done (.error status)) q
  | call {op : S.Op} {next next' : S.Answer op → Program S (Except ε α)}
      (h : ∀ answer, Extends P (next answer) (next' answer)) : Extends P (.call op next) (.call op next')

theorem Extends.completes {p : Program S (Except ε α)} (h : Extends P p q) {E : Env S σ}
    {s s' : σ} (hrun : Completes E p s events (.ok value) s') : Completes E q s events (.ok value) s' ∧ P value := by
  induction h generalizing s events with
  | ok h =>
    cases hrun
    exact ⟨.refl _ _, h⟩
  | error => cases hrun
  | call _ ih =>
    cases hrun with
    | step hanswer hrest =>
      obtain ⟨hrun, hvalue⟩ := ih _ hrest
      exact ⟨.step hanswer hrun, hvalue⟩

theorem Extends.bind {Q : β → Prop} {q : Fallible S ε α} {g : α → Fallible S ε β}
    (h : Extends P p.run q.run) (hf : ∀ a, P a → Extends Q (f a).run (g a).run) :
    Extends Q (p >>= f).run (q >>= g).run := by
  change Extends Q (p.run >>= ExceptT.bindCont f) (q.run >>= ExceptT.bindCont g)
  generalize p.run = first, q.run = second at h ⊢
  induction h with
  | ok h => exact hf _ h
  | error => exact .error _
  | call _ ih => exact .call ih

theorem extends_refl (p : Program S (Except ε α)) : Extends (fun _ => True) p p := by
  induction p with
  | done result =>
    cases result with
    | ok value => exact .ok trivial
    | error status => exact .error _
  | call op next ih => exact .call ih

end Fallible

end Interaction
