import Bmx.Interaction.Contract

/-!
# Implementing one interface by another

A component written against an abstract interface is turned into a program over the concrete one
by giving a program for each question. The component is verified once, against a contract of the
abstract interface; the implementation is verified question by question, against the same contract
read through a simulation relation.
-/

namespace Interaction

/-- An implementation of `S` by programs over `T`, with a state `τ` of its own. -/
abbrev Layer (S T : Signature) (τ : Type) := (op : S.Op) → τ → Program T (S.Answer op × τ)

namespace Program

variable {S T : Signature} {α β σ τ ρ : Type}

def through (layer : Layer S T τ) : Program S α → τ → Program T (α × τ)
  | done value, t => done (value, t)
  | call op next, t => layer op t >>= fun reply => (next reply.1).through layer reply.2

/-- The rule for a layer. `sim r t s` relates the abstract state of the component's contract, the
layer's own state and the concrete state. -/
theorem Holds.through {C : Contract S ρ} {D : Contract T σ} {Q : α → ρ → Prop}
    {layer : Layer S T τ} {sim : ρ → τ → σ → Prop} {p : Program S α} {r : ρ} {t : τ} {s : σ}
    (hp : p.Holds C Q r) (hsim : sim r t s)
    (hlayer : ∀ op r t s, C.pre op r → sim r t s → (layer op t).Holds D
      (fun reply s' => ∃ r', C.post op r reply.1 r' ∧ sim r' reply.2 s') s) :
    (p.through layer t).Holds D (fun reply s' => ∃ r', Q reply.1 r' ∧ sim r' reply.2 s') s := by
  induction p generalizing r t s with
  | done value => exact ⟨r, hp, hsim⟩
  | call op next ih =>
    refine Holds.bind (hlayer op r t s hp.1 hsim) fun reply s' hreply => ?_
    obtain ⟨r', hpost, hsim'⟩ := hreply
    exact ih reply.1 (hp.2 reply.1 r' hpost) hsim'

end Program

/-! ### Two interfaces side by side -/

def Signature.sum (S T : Signature) : Signature where
  Op := S.Op ⊕ T.Op
  Answer
    | .inl op => S.Answer op
    | .inr op => T.Answer op

namespace Program

variable {S T U : Signature} {α σ τ : Type}

/-- A program over `S` run where `T` is available too. -/
def left (T : Signature) : Program S α → Program (S.sum T) α
  | done value => done value
  | call op next => call (S := S.sum T) (.inl op) fun answer => (next answer).left T

theorem holds_left {D : Contract (S.sum T) σ} {Q : α → σ → Prop} (p : Program S α) (s : σ) :
    (p.left T).Holds D Q s ↔
      p.Holds ⟨fun op => D.pre (.inl op), fun op => D.post (.inl op)⟩ Q s := by
  induction p generalizing s with
  | done value => rfl
  | call op next ih =>
    refine and_congr_right fun _ => ?_
    exact forall_congr' fun answer => forall_congr' fun s' => imp_congr_right fun _ => ih answer s'

end Program

/-- A layer that leaves the questions of `U` to the surroundings. -/
def Layer.beside {S T : Signature} {τ : Type} (layer : Layer S T τ) (U : Signature) :
    Layer (S.sum U) (T.sum U) τ
  | .inl op, t => (layer op t).left U
  | .inr op, t => .call (S := T.sum U) (.inr op) fun answer => .done (answer, t)

/-- The questions of an interface, each asked whether it fails. -/
def Signature.faults (S : Signature) : Signature := ⟨S.Op, fun _ => Bool⟩

/-- A layer whose questions may also fail at once, with the given answer and without effect. -/
def Layer.faulty {S T : Signature} {τ : Type} (layer : Layer S T τ)
    (failure : (op : S.Op) → S.Answer op) : Layer S (T.sum S.faults) τ := fun op t =>
  .call (S := T.sum S.faults) (.inr op) fun (fails : Bool) =>
    if fails then .done (failure op, t) else (layer op t).left S.faults

/-- A contract of `S` beside surroundings that may answer the questions of `T` in any way, ask
them only where `inv` holds and never touch the state. -/
def Contract.beside {S : Signature} {σ : Type} (C : Contract S σ) (T : Signature)
    (inv : σ → Prop) : Contract (S.sum T) σ where
  pre
    | .inl op => C.pre op
    | .inr _ => inv
  post
    | .inl op => C.post op
    | .inr _ => fun s _ s' => s' = s

def Env.beside {S : Signature} {σ : Type} (E : Env S σ) (T : Signature) : Env (S.sum T) σ
  | .inl op => E op
  | .inr _ => fun s _ s' => s' = s

end Interaction
