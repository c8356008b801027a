import Bmx.Interaction.Contract

/-!
# State that others can reach

A method of an object that calls out has left its object in some state, and whoever is called may
look at it or change it before the method goes on. Such a method asks each question together with
the state it has reached and continues in the state that comes back with the answer. Where nobody
else reaches the object the state comes back as it was.
-/

namespace Interaction

/-- The questions of `S`, each asked in a state `σ` that the answer gives back. -/
@[reducible] def Signature.shared (S : Signature) (σ : Type) : Signature where
  Op := S.Op × σ
  Answer op := S.Answer op.1 × σ

/-- Methods of an object with state `σ` that ask questions of `S`. -/
abbrev Method (S : Signature) (σ : Type) := StateT σ (Program (S.shared σ))

namespace Method

variable {S : Signature} {σ τ α β : Type}

/-- Ask one question. -/
def call (op : S.Op) : Method S σ (S.Answer op) := fun s =>
  Program.perform (S := S.shared σ) (op, s)

/-- A method of a part of an object, as a method of the object. -/
def zoomFrom (get : τ → σ) (set : σ → τ → τ) :
    Program (S.shared σ) (α × σ) → τ → Program (S.shared τ) (α × τ)
  | .done (value, s), t => .done (value, set s t)
  | .call (op, s) next, t =>
    Program.call (S := S.shared τ) (op, set s t) fun reply =>
      zoomFrom get set (next (reply.1, get reply.2)) reply.2

def zoom (get : τ → σ) (set : σ → τ → τ) (m : Method S σ α) : Method S τ α := fun t =>
  zoomFrom get set (m (get t)) t

end Method

/-- A program whose state nobody else reaches. -/
def Program.alone {S : Signature} {σ α : Type} : Program (S.shared σ) α → Program S α
  | .done value => .done value
  | .call (op, s) next => .call op fun answer => (next (answer, s)).alone

namespace Program

variable {S : Signature} {σ τ ρ α β : Type}

theorem alone_zoomFrom {get : τ → σ} {set : σ → τ → τ} (hget : ∀ s t, get (set s t) = s)
    (hset : ∀ s s' t, set s (set s' t) = set s t) (p : Program (S.shared σ) (α × σ)) (t : τ) :
    (Method.zoomFrom get set p t).alone = p.alone >>= fun r => done (r.1, set r.2 t) := by
  induction p generalizing t with
  | done value => rfl
  | call op next ih =>
    obtain ⟨op, s⟩ := op
    show call op (fun answer =>
      (Method.zoomFrom get set (next (answer, get (set s t))) (set s t)).alone) = _
    refine congrArg (call op) (funext fun answer => ?_)
    rw [hget]
    refine (ih (answer, s) (set s t)).trans ?_
    exact congrArg (Program.bind _) (funext fun r => by rw [hset])

end Program

/-! ### Contracts of methods -/

/-- The surroundings of an object nobody else reaches. -/
def Contract.alone {S : Signature} {ρ : Type} (C : Contract S ρ) (σ : Type) :
    Contract (S.shared σ) ρ where
  pre op r := C.pre op.1 r
  post op r reply r' := reply.2 = op.2 ∧ C.post op.1 r reply.1 r'

theorem Program.holds_alone {S : Signature} {σ ρ α : Type} {C : Contract S ρ} {Q : α → ρ → Prop}
    (p : Program (S.shared σ) α) (r : ρ) : p.alone.Holds C Q r ↔ p.Holds (C.alone σ) Q r := by
  induction p generalizing r with
  | done value => rfl
  | call op next ih =>
    obtain ⟨op, s⟩ := op
    constructor
    · rintro ⟨hpre, hpost⟩
      refine ⟨hpre, ?_⟩
      rintro ⟨answer, s'⟩ r' ⟨hsame, hanswer⟩
      obtain rfl : s' = s := hsame
      exact (ih (answer, s') r').1 (hpost answer r' hanswer)
    · rintro ⟨hpre, hpost⟩
      exact ⟨hpre, fun answer r' hanswer =>
        (ih (answer, s) r').2 (hpost (answer, s) r' ⟨rfl, hanswer⟩)⟩

namespace Method

variable {S : Signature} {σ τ ρ α β : Type} {C : Contract (S.shared σ) ρ}

/-- The method asks only what the contract allows and every end satisfies `Q`. -/
def Holds (C : Contract (S.shared σ) ρ) (Q : α → σ → ρ → Prop) (m : Method S σ α) (s : σ) (r : ρ) : Prop :=
  (m s).Holds C (fun reply r' => Q reply.1 reply.2 r') r

variable {s : σ} {r : ρ} {Q : β → σ → ρ → Prop} {P : α → σ → ρ → Prop} {m : Method S σ α} {D : Contract S ρ}
  {op : S.Op}

@[simp] theorem holds_pure {Q : α → σ → ρ → Prop} {value : α} :
    Holds C Q (pure value) s r ↔ Q value s r := Iff.rfl

@[simp] theorem holds_get {Q : σ → σ → ρ → Prop} : Holds C Q get s r ↔ Q s s r := Iff.rfl

@[simp] theorem holds_set {Q : PUnit → σ → ρ → Prop} {s' : σ} :
    Holds C Q (set s') s r ↔ Q ⟨⟩ s' r := Iff.rfl

@[simp] theorem holds_modify {Q : PUnit → σ → ρ → Prop} {f : σ → σ} :
    Holds C Q (modify f) s r ↔ Q ⟨⟩ (f s) r := Iff.rfl

theorem holds_bind (m : Method S σ α) (f : α → Method S σ β) (s : σ) (r : ρ) :
    Holds C Q (m >>= f) s r ↔ Holds C (fun a s' r' => Holds C Q (f a) s' r') m s r :=
  Program.holds_bind (m s) (fun reply => f reply.1 reply.2) r

theorem Holds.mono {Q : α → σ → ρ → Prop} (hm : Holds C P m s r)
    (hPQ : ∀ a s' r', P a s' r' → Q a s' r') : Holds C Q m s r :=
  Program.Holds.mono hm fun _ _ h => hPQ _ _ _ h

theorem Holds.bind {f : α → Method S σ β} (hm : Holds C P m s r)
    (hf : ∀ a s' r', P a s' r' → Holds C Q (f a) s' r') : Holds C Q (m >>= f) s r :=
  (holds_bind m f s r).2 (hm.mono hf)

@[simp] theorem holds_alone_call {Q : S.Answer op → σ → ρ → Prop} :
    Holds (D.alone σ) Q (call op) s r ↔
      D.pre op r ∧ ∀ answer r', D.post op r answer r' → Q answer s r' := by
  constructor
  · rintro ⟨hpre, hpost⟩
    exact ⟨hpre, fun answer r' hanswer => hpost (answer, s) r' ⟨rfl, hanswer⟩⟩
  · rintro ⟨hpre, hpost⟩
    refine ⟨hpre, ?_⟩
    rintro ⟨answer, s'⟩ r' ⟨hsame, hanswer⟩
    obtain rfl : s' = s := hsame
    exact hpost answer r' hanswer

/-- A method that begins with a question, where nobody else reaches its state. -/
theorem Holds.alone_call_bind {f : S.Answer op → Method S σ β}
     (hpre : D.pre op r)
    (hf : ∀ answer r', D.post op r answer r' → Holds (D.alone σ) Q (f answer) s r') :
    Holds (D.alone σ) Q (call op >>= f) s r :=
  (holds_bind _ _ s r).2 (holds_alone_call.2 ⟨hpre, hf⟩)

theorem holds_zoom (get : τ → σ) (set : σ → τ → τ) (hget : ∀ s t, get (set s t) = s)
    (hset : ∀ s s' t, set s (set s' t) = set s t) {Q : α → τ → ρ → Prop} {t : τ}
    (hm : Holds (D.alone σ) (fun a s r' => Q a (set s t) r') m (get t) r) :
    Holds (D.alone τ) Q (zoom get set m) t r := by
  refine (Program.holds_alone _ _).1 ?_
  rw [zoom, Program.alone_zoomFrom hget hset, Program.holds_bind]
  exact (Program.holds_alone _ _).2 hm

/-- Whatever the answers, the method asks only questions of this kind. -/
def Asks (allowed : S.Op → Prop) (m : Method S σ α) : Prop :=
  ∀ s, Program.Asks (fun op : S.Op × σ => allowed op.1) (m s)

section Asks

variable {allowed : S.Op → Prop}

theorem asks_pure (value : α) : Asks allowed (pure value : Method S σ α) := fun _ => trivial

theorem asks_get : Asks allowed (get : Method S σ σ) := fun _ => trivial

theorem asks_set (s : σ) : Asks allowed (set s : Method S σ PUnit) := fun _ => trivial

theorem asks_modify (f : σ → σ) : Asks allowed (modify f : Method S σ PUnit) := fun _ => trivial

theorem asks_call {op : S.Op} (hop : allowed op) : Asks allowed (call op : Method S σ (S.Answer op)) :=
  fun _ => ⟨hop, fun _ => trivial⟩

variable {m : Method S σ α}

theorem Asks.bind {f : α → Method S σ β} (hm : Asks allowed m)
    (hf : ∀ a, Asks allowed (f a)) : Asks allowed (m >>= f) :=
  fun s => Program.Asks.bind (hm s) fun reply => hf reply.1 reply.2

theorem Asks.holds {D : Contract S ρ} (hm : Asks allowed m) (hpre : ∀ op r, allowed op → D.pre op r)
    (hsame : ∀ op r answer r', allowed op → D.post op r answer r' → r' = r) (s : σ) (r : ρ) :
    Holds (D.alone σ) (fun _ _ r' => r' = r) m s r := by
  have hstep : ∀ (op : S.Op × σ) (r' : ρ) (answer : S.Answer op.1 × σ) (r'' : ρ), allowed op.1 →
      r' = r → (D.alone σ).post op r' answer r'' → r'' = r := by
    rintro op r' answer r'' hop rfl ⟨-, hpost⟩
    exact hsame op.1 r' answer.1 r'' hop hpost
  exact Program.Asks.holds (hm s) (fun op r' hop _ => hpre op.1 r' hop) hstep rfl

end Asks

theorem Holds.after {allowed : S.Op → Prop} {Q : α → σ → List (Event S) → Prop}
    {past : List (Event S)} (hm : Holds ((historyContract S allowed).alone σ) Q m s past)
    (before : List (Event S)) :
    Holds ((historyContract S allowed).alone σ)
      (fun a s' now => ∃ new, now = before ++ new ∧ Q a s' new) m s (before ++ past) :=
  (Program.holds_alone _ _).1 (((Program.holds_alone _ _).2 hm).after before)

end Method

end Interaction
