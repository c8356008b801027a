import Bmx.Interaction.Contract

/-!
# Monitors and transactions

A monitor folds the exchanges of a run into a state of its own and says in which of its states a
question may be asked. A transaction is the monitor of a resource that is opened, fed, and then
either finished or aborted; every run it admits that ends idle pairs the openings with the
closings.
-/

namespace Interaction

/-! ### Monitors -/

section Monitors

variable {S : Signature} {α ω : Type}

/-- Surroundings that answer anything, watched by a monitor that says what may be asked. -/
def monitorContract (allowed : S.Op → ω → Prop) (observe : ω → Event S → ω) : Contract S ω where
  pre := allowed
  post op w answer w' := w' = observe w ⟨op, answer⟩

/-- Every question was asked in a state of the monitor that allows it. -/
def Obeyed (allowed : S.Op → ω → Prop) (observe : ω → Event S → ω) (w : ω) :
    List (Event S) → Prop
  | [] => True
  | event :: rest => allowed event.op w ∧ Obeyed allowed observe (observe w event) rest

variable {allowed : S.Op → ω → Prop} {observe : ω → Event S → ω}

theorem Obeyed.at {past rest : List (Event S)} {event : Event S} {w : ω}
    (h : Obeyed allowed observe w (past ++ event :: rest)) : allowed event.op (past.foldl observe w) := by
  induction past generalizing w with
  | nil => exact h.1
  | cons first past ih => exact ih h.2

theorem Steps.monitored {σ : Type} {E : Env S σ} {p q : Program S α} {s s' : σ}
    {events : List (Event S)} {Q : α → ω → Prop} {w : ω} (hsteps : Steps E p s events q s')
    (hp : p.Holds (monitorContract allowed observe) Q w) :
    Obeyed allowed observe w events ∧
      q.Holds (monitorContract allowed observe) Q (events.foldl observe w) := by
  induction hsteps generalizing w with
  | refl p s => exact ⟨trivial, hp⟩
  | step hanswer _ ih =>
    have hnext := ih (hp.2 _ _ rfl)
    exact ⟨⟨hp.1, hnext.1⟩, hnext.2⟩

/-- What a program does under the eyes of a monitor it does in every run. -/
theorem AnyRun.monitored {p : Program S α} {events : List (Event S)} {value : α}
    {Q : α → ω → Prop} {w : ω} (hrun : AnyRun p events value) (hp : p.Holds (monitorContract allowed observe) Q w) :
    Obeyed allowed observe w events ∧ Q value (events.foldl observe w) := Steps.monitored hrun hp

end Monitors

/-! ### Transactions -/

/-- What is done to a resource, and whether the resource accepted it. -/
inductive Act (κ α : Type)
  | start (key : κ) (accepted : Bool)
  | feed (items : List α) (accepted : Bool)
  | finish (key : κ) (accepted : Bool)
  | abort (key : κ)

/-- A resource between two acts. Once it has refused something it can only be aborted. -/
inductive Transaction (κ α : Type)
  | idle
  | active (key : κ) (fed : List α)
  | refused (key : κ)

namespace Transaction

variable {κ α : Type}

def next : Transaction κ α → Act κ α → Transaction κ α
  | t, .start key accepted => if accepted then .active key [] else t
  | .active key fed, .feed items accepted =>
    if accepted then .active key (fed ++ items) else .refused key
  | .active key _, .finish _ accepted => if accepted then .idle else .refused key
  | _, .abort _ => .idle
  | t, _ => t

def Admits : Transaction κ α → Act κ α → Prop
  | .idle, .start _ _ => True
  | .active _ _, .feed _ _ => True
  | .active key _, .finish key' _ => key' = key
  | .active key _, .abort key' => key' = key
  | .refused key, .abort key' => key' = key
  | _, _ => False

/-- Every act of the list is admitted where it is done. -/
def AdmitsAll : Transaction κ α → List (Act κ α) → Prop
  | _, [] => True
  | t, act :: rest => t.Admits act ∧ (t.next act).AdmitsAll rest

def IsOpen (t : Transaction κ α) (key : κ) : Prop := (∃ fed, t = .active key fed) ∨ t = .refused key

end Transaction

def Act.Closes {κ α : Type} (act : Act κ α) (key : κ) : Prop :=
  act = .finish key true ∨ act = .abort key

def Act.Inside {κ α : Type} (act : Act κ α) (key : κ) : Prop :=
  (∃ items accepted, act = .feed items accepted) ∨ act = .finish key false

namespace Transaction

variable {κ α : Type} {t : Transaction κ α} {key : κ}

theorem IsOpen.next {act : Act κ α} (hopen : t.IsOpen key) (hadmits : t.Admits act) :
    (act.Inside key ∧ (t.next act).IsOpen key) ∨ (act.Closes key ∧ t.next act = .idle) := by
  rcases hopen with ⟨fed, rfl⟩ | rfl
  · cases act with
    | start key' accepted => exact hadmits.elim
    | feed items accepted =>
      refine .inl ⟨.inl ⟨items, accepted, rfl⟩, ?_⟩
      cases accepted
      · exact .inr rfl
      · exact .inl ⟨_, rfl⟩
    | finish key' accepted =>
      obtain rfl : key' = key := hadmits
      cases accepted
      · exact .inl ⟨.inr rfl, .inr rfl⟩
      · exact .inr ⟨.inl rfl, rfl⟩
    | abort key' =>
      obtain rfl : key' = key := hadmits
      exact .inr ⟨.inr rfl, rfl⟩
  · cases act with
    | start key' accepted | feed items accepted | finish key' accepted => exact hadmits.elim
    | abort key' =>
      obtain rfl : key' = key := hadmits
      exact .inr ⟨.inr rfl, rfl⟩

/-- An open resource that ends idle was closed, after acts of its own transaction only. -/
theorem IsOpen.closed {acts : List (Act κ α)} (hopen : t.IsOpen key) (hadmits : t.AdmitsAll acts)
    (hend : acts.foldl Transaction.next t = .idle) :
    ∃ inside close later, acts = inside ++ close :: later ∧ close.Closes key ∧
      ∀ act ∈ inside, act.Inside key := by
  induction acts generalizing t with
  | nil =>
    obtain rfl : t = .idle := hend
    rcases hopen with ⟨fed, h⟩ | h <;> cases h
  | cons act rest ih =>
    rcases hopen.next hadmits.1 with ⟨hinside, hstill⟩ | ⟨hcloses, -⟩
    · obtain ⟨inside, close, later, rfl, hclose, hall⟩ := ih hstill hadmits.2 hend
      refine ⟨act :: inside, close, later, rfl, hclose, fun other hother => ?_⟩
      rcases List.mem_cons.1 hother with rfl | hother
      · exact hinside
      · exact hall other hother
    · exact ⟨[], act, rest, rfl, hcloses, fun _ h => absurd h List.not_mem_nil⟩

/-- In an admitted run that ends idle every accepted opening is followed by one closing of the same
key, and by nothing but acts of its transaction before that. -/
theorem paired {past rest : List (Act κ α)} (hadmits : t.AdmitsAll (past ++ .start key true :: rest))
    (hend : (past ++ .start key true :: rest).foldl Transaction.next t = .idle) :
    ∃ inside close later, rest = inside ++ close :: later ∧ close.Closes key ∧
      ∀ act ∈ inside, act.Inside key := by
  induction past generalizing t with
  | nil => exact IsOpen.closed (.inl ⟨[], rfl⟩) hadmits.2 hend
  | cons act past ih => exact ih hadmits.2 hend

end Transaction

/-! ### Transactions of an interface -/

section Watching

variable {S : Signature} {ω κ α : Type} {allowed : S.Op → ω → Prop} {observe : ω → Event S → ω}

/-- The transaction after an exchange that may be an act on it. -/
def Transaction.after (t : Transaction κ α) : Option (Act κ α) → Transaction κ α
  | none => t
  | some act => t.next act

/-- A monitor that keeps a transaction in its state admits only runs the transaction admits. -/
theorem Obeyed.admitsAll {events : List (Event S)} {w : ω} (h : Obeyed allowed observe w events)
    (view : ω → Transaction κ α) (acts : Event S → Option (Act κ α))
    (hallowed : ∀ event act w, acts event = some act → allowed event.op w → (view w).Admits act)
    (hview : ∀ w event, view (observe w event) = (view w).after (acts event)) :
    (view w).AdmitsAll (events.filterMap acts) ∧
      (events.filterMap acts).foldl Transaction.next (view w) = view (events.foldl observe w) := by
  induction events generalizing w with
  | nil => exact ⟨trivial, rfl⟩
  | cons event rest ih =>
    have hrest := ih h.2
    rw [hview] at hrest
    cases hact : acts event with
    | none =>
      rw [List.filterMap_cons_none hact]
      rw [hact] at hrest
      exact hrest
    | some act =>
      rw [List.filterMap_cons_some hact]
      rw [hact] at hrest
      exact ⟨⟨hallowed event act w hact h.1, hrest.1⟩, hrest.2⟩

end Watching

end Interaction
