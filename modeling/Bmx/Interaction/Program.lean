import Bmx.Base.Instances

/-!
# Programs over an interface

A device driver, a parser fed by a network or an installer working on a card is a finite tree: at
each node it asks its surroundings one question and continues with the answer. The surroundings
are given separately, as a relation saying which answers a question may get and what that does to
the outside state. Nothing here knows which questions there are.
-/

namespace Interaction

/-- The questions a program may ask and the type of the answer to each. -/
structure Signature where
  Op : Type
  Answer : Op → Type

inductive Program (S : Signature) (α : Type) : Type where
  | done (value : α)
  | call (op : S.Op) (next : S.Answer op → Program S α)

namespace Program

variable {S T : Signature} {α β : Type}

protected def bind : Program S α → (α → Program S β) → Program S β
  | done value, f => f value
  | call op next, f => call op fun answer => (next answer).bind f

instance : Monad (Program S) where
  pure := done
  bind := Program.bind

/-- Ask one question and return its answer. -/
def perform (op : S.Op) : Program S (S.Answer op) := call op done

@[simp] theorem pure_eq (value : α) : (pure value : Program S α) = done value := rfl

@[simp] theorem done_bind (value : α) (f : α → Program S β) : done value >>= f = f value := rfl

@[simp] theorem call_bind (op : S.Op) (next : S.Answer op → Program S α) (f : α → Program S β) :
    call op next >>= f = call op fun answer => next answer >>= f := rfl

@[simp] theorem perform_bind (op : S.Op) (f : S.Answer op → Program S β) :
    perform op >>= f = call op f := rfl

theorem bind_done (p : Program S α) : p >>= done = p := by
  induction p with
  | done value => rfl
  | call op next ih =>
    exact congrArg (call op) (funext ih)

theorem bind_assoc {γ : Type} (p : Program S α) (f : α → Program S β) (g : β → Program S γ) :
    p >>= f >>= g = p >>= fun a => f a >>= g := by
  induction p with
  | done value => rfl
  | call op next ih =>
    exact congrArg (call op) (funext ih)

instance : LawfulMonad (Program S) :=
  LawfulMonad.mk' (Program S) (fun p => bind_done p) (fun _ _ => rfl) bind_assoc

end Program

/-! ### Surroundings and runs -/

/-- One exchange with the surroundings. -/
structure Event (S : Signature) where
  op : S.Op
  answer : S.Answer op

/-- What the surroundings may do: `E op s answer s'` when in state `s` they may answer `op` with
`answer` and move to `s'`. -/
abbrev Env (S : Signature) (σ : Type) := (op : S.Op) → σ → S.Answer op → σ → Prop

/-- A partial run of a program, with the exchanges it made. The program that remains may be
anything, so a crash between two exchanges is a run too. -/
inductive Steps {S : Signature} {α σ : Type} (E : Env S σ) :
    Program S α → σ → List (Event S) → Program S α → σ → Prop where
  | refl (p : Program S α) (s : σ) : Steps E p s [] p s
  | step {op : S.Op} {next : S.Answer op → Program S α} {s s' s'' : σ} {answer : S.Answer op}
      {events : List (Event S)} {q : Program S α} (hanswer : E op s answer s')
      (hrest : Steps E (next answer) s' events q s'') :
      Steps E (.call op next) s (⟨op, answer⟩ :: events) q s''

/-- A run that reaches its result. -/
def Completes {S : Signature} {α σ : Type} (E : Env S σ) (p : Program S α) (s : σ)
    (events : List (Event S)) (value : α) (s' : σ) : Prop :=
  Steps E p s events (.done value) s'

theorem completes_map {S : Signature} {α β σ : Type} {E : Env S σ} {p : Program S α} {f : α → β} {s s' : σ}
    {events : List (Event S)} {value : β} :
    Completes E (p >>= fun a => .done (f a)) s events value s' ↔ ∃ a, Completes E p s events a s' ∧ f a = value := by
  induction p generalizing s events with
  | done a =>
    constructor
    · intro h
      cases h
      exact ⟨a, .refl _ _, rfl⟩
    · rintro ⟨b, h, rfl⟩
      cases h
      exact .refl _ _
  | call op next ih =>
    constructor
    · intro h
      cases h with
      | step hanswer hrest =>
        obtain ⟨a, hrun, hvalue⟩ := (ih _).1 hrest
        exact ⟨a, .step hanswer hrun, hvalue⟩
    · rintro ⟨a, h, hvalue⟩
      cases h with
      | step hanswer hrest => exact .step hanswer ((ih _).2 ⟨a, hrest, hvalue⟩)

/-- Surroundings that accept every answer and keep no state. -/
def anyEnv (S : Signature) : Env S Unit := fun _ _ _ _ => True

section Handlers

variable {S : Signature} {α σ : Type}

/-- Deterministic surroundings, for evaluating a program on a concrete input. -/
abbrev Handler (S : Signature) (σ : Type) := (op : S.Op) → σ → S.Answer op × σ

namespace Program

def run (h : Handler S σ) : Program S α → σ → List (Event S) × α × σ
  | done value, s => ([], value, s)
  | call op next, s =>
    let reply := h op s
    let rest := (next reply.1).run h reply.2
    (⟨op, reply.1⟩ :: rest.1, rest.2)

theorem run_completes {E : Env S σ} {h : Handler S σ}
    (hallowed : ∀ op s, E op s (h op s).1 (h op s).2) (p : Program S α) (s : σ) :
    Completes E p s (p.run h s).1 (p.run h s).2.1 (p.run h s).2.2 := by
  induction p generalizing s with
  | done value => exact .refl _ _
  | call op next ih => exact .step (hallowed op s) (ih (h op s).1 (h op s).2)

end Program

end Handlers

end Interaction
