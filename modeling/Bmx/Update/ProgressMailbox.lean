import Bmx.Base.Bytes

/-!
# Progress of an update in the foreground

An update reports where it is at checkpoints. The reports go through a mailbox: its reader sees the
changes of phase one after the other, and between them the latest report. Callers hold a lock.
-/

namespace Bmx.Update

inductive UpdateForegroundPhase
  | discovery | manifest | zip | hash | stage | reboot
  deriving DecidableEq

inductive UpdateForegroundCancelBehavior
  | cancelAtCheckpoint | mandatoryCompletion
  deriving DecidableEq

structure UpdateForegroundUiEvent where
  phase : UpdateForegroundPhase
  progressPerMille : UInt16
  determinate : Bool
  cancelEnabled : Bool
  cancelPending : Bool
  deriving DecidableEq

def ratioPerMille (completed total : UInt64) : UInt16 :=
  if total = 0 then 0
  else if completed ≥ total then 1000
  else
    let quotient := completed / total
    let remainder := completed % total
    let scaled := quotient * 1000 +
      if remainder ≤ 0xFFFFFFFFFFFFFFFF / 1000 then remainder * 1000 / total
      else remainder / (total / 1000 + 1)
    if scaled > 1000 then 1000 else scaled.toUInt16

example : ratioPerMille 1 3 = 333 := by decide

/-! ### The foreground -/

/-- An `UpdateForegroundProgress` that has a UI. -/
structure UpdateForegroundProgress where
  phase : UpdateForegroundPhase := .discovery
  active : Bool := false
  cancelRequested : Bool := false
  deriving DecidableEq

def UpdateForegroundProgress.event (progress : UpdateForegroundProgress) (phase : UpdateForegroundPhase)
    (completed total : UInt64) (behavior : UpdateForegroundCancelBehavior) : UpdateForegroundUiEvent where
  phase := phase
  progressPerMille := ratioPerMille completed total
  determinate := total ≠ 0
  cancelEnabled := behavior = .cancelAtCheckpoint
  cancelPending := progress.cancelRequested

/-! ### The mailbox -/

abbrev transitionCapacity : Nat := 16

/-- `latest` is there when `latest_valid_` is set. -/
structure UpdateProgressMailbox where
  latest : Option UpdateForegroundUiEvent
  transitions : Fin transitionCapacity → UpdateForegroundUiEvent
  head : Nat
  count : Nat

namespace UpdateProgressMailbox

def init : UpdateProgressMailbox := ⟨none, fun _ => ⟨.discovery, 0, false, false, false⟩, 0, 0⟩

def reset (m : UpdateProgressMailbox) : UpdateProgressMailbox := { m with latest := none, head := 0, count := 0 }

def present (event : UpdateForegroundUiEvent) (m : UpdateProgressMailbox) : UpdateProgressMailbox :=
  if m.latest.map UpdateForegroundUiEvent.phase = some event.phase then { m with latest := some event }
  else
    let (head, count) :=
      if m.count = transitionCapacity then ((m.head + 1) % transitionCapacity, m.count - 1)
      else (m.head, m.count)
    let tail := ⟨(head + count) % transitionCapacity, Nat.mod_lt _ (by decide)⟩
    { latest := some event
      transitions := Function.update m.transitions tail event
      head := head
      count := count + 1 }

def popTransition (m : UpdateProgressMailbox) : Option UpdateForegroundUiEvent × UpdateProgressMailbox :=
  if m.count = 0 then (none, m)
  else
    (some (m.transitions ⟨m.head % transitionCapacity, Nat.mod_lt _ (by decide)⟩),
      { m with head := (m.head + 1) % transitionCapacity, count := m.count - 1 })

end UpdateProgressMailbox

end Bmx.Update
