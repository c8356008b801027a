import Bmx.Interaction.Monitor
import Bmx.Zip.Stream

/-!
# The inflate loop ends

Every call of the inflater that does not end the loop takes input or gives output, and there is only so much of both.
A call that does neither ends the member with an error, and no more is written than the member is long.
-/

namespace Bmx.Zip

open Interaction Update Fallible InflateState

/-- What is seen of the loop: the calls of the inflater, the bytes written, and whether the last call made no progress. -/
structure Watched where
  rounds : Nat
  written : Nat
  stalled : Bool

def Watched.observe (w : Watched) : Event zipSignature → Watched
  | ⟨.inflate _ _ _, answer⟩ =>
    { w with
      rounds := w.rounds + 1
      stalled := answer.consumed = 0 ∧ answer.output = [] ∧ answer.status ≠ .done }
  | ⟨.sinkWrite bytes, _⟩ => { w with written := w.written + bytes.length }
  | _ => w

/-- No call follows one without progress, and there is a bound on the calls of the inflater and on what is written. -/
def Watched.Allows (rounds size : Nat) (op : ZipOp) (w : Watched) : Prop :=
  w.stalled = false ∧
    match op with
    | .inflate _ _ _ => w.rounds < rounds
    | .sinkWrite bytes => w.written + bytes.length ≤ size
    | _ => True

variable {rounds size : Nat} {w : Watched} {α β : Type} {sinks : Sinks} {state : InflateState} {bytes output : Bytes}

/-- After a call without progress only `DeflateInvalid` is returned. -/
abbrev Watches (rounds size : Nat) (p : ZipM α) (w : Watched) (Q : α → Watched → Prop) : Prop :=
  Upholds (monitorContract (Watched.Allows rounds size) Watched.observe) Q
    (fun status w' => w'.stalled = true → status = .deflateInvalid) p w

variable {Q : α → Watched → Prop} {status : ZipStatus}

theorem watches_throw (h : w.stalled = false) : Watches rounds size (throw status) w Q :=
  fun hstalled => absurd (h.symm.trans hstalled) nofun

theorem watches_require {condition : Prop} [Decidable condition] (h : w.stalled = false) :
    Watches rounds size (require condition status) w fun _ w' => w' = w ∧ condition :=
  upholds_require.2 ⟨fun hcondition => ⟨rfl, hcondition⟩, fun _ hstalled => absurd (h.symm.trans hstalled) nofun⟩

/-- There is input for the next call, or no more to be read. -/
theorem watches_refill (h : w.stalled = false) : Watches rounds size state.refill w fun state' w' => w' = w ∧
    state'.output = state.output ∧
      state'.remaining + state'.pending.length = state.remaining + state.pending.length ∧
      (state'.pending = [] → state'.remaining = 0) := by
  have hread (offset count : Nat) : Watches rounds size (readSource offset count) w fun bytes w' =>
      w' = w ∧ bytes.length = count := by
    unfold readSource
    refine upholds_ask_bind.2 ⟨⟨h, trivial⟩, fun answer s' hpost => ?_⟩
    cases hpost
    cases answer with
    | none => exact watches_throw h
    | some bytes => exact ⟨rfl, bytes.2⟩
  unfold refill
  split
  · rename_i hempty
    refine (hread _ _).bind fun bytes w' hbytes => ?_
    obtain ⟨rfl, hlength⟩ := hbytes
    have hpositive : 0 < zipInputBufferBytes := by decide
    refine ⟨rfl, rfl, ?_, fun hnone => ?_⟩
    · simp only [hempty.1, hlength, List.length_nil]
      omega
    · have hzero := congrArg List.length hnone
      simp only [hlength, List.length_nil] at hzero
      omega
  · rename_i hready
    exact ⟨rfl, rfl, rfl, fun hnone => not_not.1 fun hmore => hready ⟨hnone, hmore⟩⟩

theorem watches_deliver {before : Produced} (h : w.stalled = false) (hroom : w.written + bytes.length ≤ size) :
    Watches rounds size (deliver sinks size bytes before) w fun after w' => w'.stalled = false ∧
      w'.rounds = w.rounds ∧ w'.written ≤ w.written + bytes.length ∧
      after.produced = before.produced + bytes.length := by
  have hhash : Watches rounds size (feedHash sinks bytes) w fun _ w' => w' = w := by
    unfold feedHash
    split
    · refine upholds_ask_bind.2 ⟨⟨h, trivial⟩, fun answer s' hpost => ?_⟩
      cases hpost
      exact (watches_require h).mono (fun _ _ h => h.1) fun _ _ h => h
    · exact rfl
  have hsink : Watches rounds size (feedSink sinks bytes) w fun _ w' => w'.stalled = false ∧
      w'.rounds = w.rounds ∧ w'.written ≤ w.written + bytes.length := by
    unfold feedSink
    split
    · refine upholds_ask_bind.2 ⟨⟨h, hroom⟩, fun answer s' hpost => ?_⟩
      have hmoving : s'.stalled = false := by
        rw [hpost]
        exact h
      refine (watches_require hmoving).mono (fun _ w' hrest => ?_) fun _ _ h => h
      obtain ⟨rfl, -⟩ := hrest
      exact ⟨hmoving, by rw [hpost]; rfl, by rw [hpost]; exact Nat.le_refl _⟩
    · exact ⟨h, rfl, Nat.le_add_right _ _⟩
  have hprogress (w' : Watched) (h' : w'.stalled = false) (produced : Nat) :
      Watches rounds size (reportProgress sinks.progress .stream produced size) w' fun _ w'' => w'' = w' := by
    unfold reportProgress
    split
    · refine upholds_ask_bind.2 ⟨⟨h', trivial⟩, fun answer s' hpost => ?_⟩
      subst hpost
      exact (watches_require h').mono (fun _ _ h => h.1) fun _ _ h => h
    · exact rfl
  unfold deliver
  refine hhash.bind fun _ w₁ h₁ => ?_
  subst h₁
  refine hsink.bind fun _ w₂ h₂ => ?_
  refine (hprogress w₂ h₂.1 _).bind fun _ w₃ h₃ => ?_
  subst h₃
  exact ⟨h₂.1, h₂.2.1, h₂.2.2, rfl⟩

theorem watches_emit (h : w.stalled = false) (hwritten : w.written ≤ state.output.produced) :
    Watches rounds size (state.emit sinks size output) w fun state' w' => w'.stalled = false ∧
      w'.rounds = w.rounds ∧ w'.written ≤ state'.output.produced ∧ state'.output.produced ≤ size ∧
      state'.output.produced = state.output.produced + output.length ∧ state'.remaining = state.remaining ∧
      state'.pending = state.pending := by
  unfold emit
  refine (watches_require h).bind fun _ w₁ h₁ => ?_
  obtain ⟨rfl, hproduced, hroom⟩ := h₁
  split
  · refine (watches_deliver h (by omega)).bind fun after w₂ h₂ => ?_
    obtain ⟨hmoving, hrounds, hmore, hafter⟩ := h₂
    exact ⟨hmoving, hrounds, by dsimp only; omega, by dsimp only; omega, hafter, rfl, rfl⟩
  · rename_i hnothing
    rw [not_not] at hnothing
    exact ⟨h, rfl, hwritten, hproduced, by rw [hnothing]; rfl, rfl, rfl⟩

theorem emit_nil (h : state.output.produced ≤ size) : state.emit sinks size [] = pure state := by
  unfold emit require
  rw [if_pos ⟨h, Nat.zero_le _⟩, if_neg (not_not.2 rfl)]
  rfl

/-- Between two turns: nothing has stalled, no more was written than was produced, and the calls that are left are
enough for the input and the room that are left. -/
structure Turning (rounds size : Nat) (state : InflateState) (w : Watched) : Prop where
  moving : w.stalled = false
  written : w.written ≤ state.output.produced
  produced : state.output.produced ≤ size
  credit : w.rounds + (state.remaining + state.pending.length + (size - state.output.produced)) < rounds

theorem watches_inflateRound {next : InflateState → ZipM Produced} {Q : Produced → Watched → Prop}
    (h : Turning rounds size state w) (hdone : ∀ output w', w'.stalled = false → Q output w')
    (hnext : ∀ state' w', Turning rounds size state' w' → w'.rounds = w.rounds + 1 →
      Watches rounds size (next state') w' Q) :
    Watches rounds size (inflateRound sinks size next state) w Q := by
  have hwritten := h.written
  have hproduced := h.produced
  have hcredit := h.credit
  unfold inflateRound
  refine (watches_refill h.moving).bind fun state₁ w₁ h₁ => ?_
  obtain ⟨rfl, houtput, hinput, hempty⟩ := h₁
  rw [← houtput] at hwritten hproduced hcredit
  refine upholds_ask_bind.2 ⟨⟨h.moving, by omega⟩, fun answer w₂ hpost => ?_⟩
  have hconsumed := answer.consumed_le
  have hdrop : (state₁.pending.drop answer.consumed).length = state₁.pending.length - answer.consumed :=
    List.length_drop
  by_cases hstall : answer.consumed = 0 ∧ answer.output = []
  · -- The call made no progress, though it had input if there is any: the loop does not go on.
    obtain ⟨hnone, hnothing⟩ := hstall
    dsimp only
    rw [hnone, hnothing, List.drop_zero, emit_nil hproduced, pure_bind]
    have hstuck : ¬ (state₁.pending = [] ∧ state₁.remaining ≠ 0) := fun h => h.2 (hempty h.1)
    have hrefused (status : TinflStatus) : state₁.requireProgress 0 [] status = throw .deflateInvalid := by
      unfold requireProgress require
      rw [if_pos ⟨rfl, rfl⟩, if_neg hstuck]
    cases hstatus : answer.status with
    | failed => exact fun _ => rfl
    | done =>
      have hmoving : w₂.stalled = false := by
        rw [hpost]
        exact decide_eq_false fun hstalled => hstalled.2.2 hstatus
      refine (watches_require hmoving).bind fun _ w₃ h₃ => ?_
      exact hdone _ _ (h₃.1 ▸ hmoving)
    | needsMoreInput | hasMoreOutput =>
      dsimp only
      rw [hrefused]
      exact fun _ => rfl
  · have hmoving : w₂.stalled = false := by
      rw [hpost]
      exact decide_eq_false fun hstalled => hstall ⟨hstalled.1, hstalled.2.1⟩
    have hsame : w₂.rounds = w₁.rounds + 1 ∧ w₂.written = w₁.written := by
      rw [hpost]
      exact ⟨rfl, rfl⟩
    refine (watches_emit hmoving (hsame.2 ▸ hwritten)).bind fun state₂ w₃ h₃ => ?_
    obtain ⟨hmoving, hrounds, hwritten, hproduced, hafter, hremaining, hpending⟩ := h₃
    dsimp only at hafter hremaining hpending
    have hturning : Turning rounds size state₂ w₃ := by
      refine ⟨hmoving, hwritten, hproduced, ?_⟩
      have hprogress : answer.consumed ≠ 0 ∨ answer.output.length ≠ 0 := by
        rw [Ne, Ne, List.length_eq_zero_iff]
        exact not_and_or.1 hstall
      rw [hrounds, hsame.1, hremaining, hpending, hdrop]
      omega
    have hagain (status : TinflStatus) : Watches rounds size
        (state₂.requireProgress answer.consumed answer.output status >>= fun _ => next state₂) w₃ Q := by
      unfold requireProgress
      rw [if_neg hstall]
      refine (watches_require hmoving).bind fun _ w₄ h₄ => ?_
      exact h₄.1 ▸ hnext _ _ hturning (hrounds.trans hsame.1)
    cases hstatus : answer.status with
    | failed => exact watches_throw hmoving
    | done =>
      refine (watches_require hmoving).bind fun _ w₄ h₄ => ?_
      exact hdone _ _ (h₄.1 ▸ hmoving)
    | needsMoreInput => exact hagain _
    | hasMoreOutput => exact hagain _

/-- The loop with so many turns, and `spent` after them. -/
def streamTurns (sinks : Sinks) (size : Nat) (spent : ZipM Produced) : (turns : Nat) → InflateState → ZipM Produced
  | 0, _ => spent
  | turns + 1, state => inflateRound sinks size (streamTurns sinks size spent turns) state

theorem streamDeflated_eq (turns : Nat) :
    streamDeflated sinks size turns = streamTurns sinks size (throw .deflateInvalid) turns := by
  induction turns with
  | zero => rfl
  | succ turns ih =>
    funext state
    rw [streamDeflated, streamTurns, ih]

theorem watches_streamTurns {spent : ZipM Produced} {turns : Nat} (h : Turning rounds size state w)
    (hturns : rounds ≤ w.rounds + turns) :
    Watches rounds size (streamTurns sinks size spent turns state) w fun _ w' => w'.stalled = false := by
  induction turns generalizing state w with
  | zero =>
    have hcredit := h.credit
    omega
  | succ turns ih =>
    refine watches_inflateRound h (fun _ _ h => h) fun _ w' h hlater => ih h ?_
    omega

/-- The loop never takes more than so many turns, whatever came after them: it calls the inflater a bounded number of
times and ends. A call without progress is the last one and ends it with `DeflateInvalid`, and no more is written than
the declared size. -/
theorem streamDeflated_ends (sinks : Sinks) (entry : ZipEntry) :
    (∀ turns, streamDeflated sinks entry.size turns = streamTurns sinks entry.size (throw .deflateInvalid) turns) ∧
      ∀ spent more, (streamTurns sinks entry.size spent (entry.compressedSize + entry.size + 1 + more)
        ⟨entry.compressedSize, entry.dataOffset, [], 0, .none⟩).run.Holds
        (monitorContract (Watched.Allows (entry.compressedSize + entry.size + 1) entry.size) Watched.observe)
        (fun result w => w.stalled = true → result = .error .deflateInvalid) ⟨0, 0, false⟩ := by
  refine ⟨streamDeflated_eq, fun spent more => ?_⟩
  have hstart : Turning (entry.compressedSize + entry.size + 1) entry.size
      ⟨entry.compressedSize, entry.dataOffset, [], 0, .none⟩ ⟨0, 0, false⟩ := by
    refine ⟨rfl, Nat.le_refl _, Nat.zero_le _, ?_⟩
    change 0 + (entry.compressedSize + 0 + (entry.size - 0)) < _
    omega
  refine Program.Holds.mono (watches_streamTurns hstart ?_) fun result w h hstalled => ?_
  · change entry.compressedSize + entry.size + 1 ≤ 0 + (entry.compressedSize + entry.size + 1 + more)
    omega
  · cases result with
    | ok output => exact absurd (h.symm.trans hstalled) nofun
    | error status => exact congrArg Except.error (h hstalled)

end Bmx.Zip
