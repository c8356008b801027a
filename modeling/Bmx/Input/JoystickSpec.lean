import Bmx.Input.JoyPorts
import Bmx.Input.HotkeySpec
import Mathlib.Data.Fintype.Basic

/-!
# Joysticks follow the keyboard

Once the queued events are applied, each input of a port is active exactly while a key that is mapped to it
is held, unless the menu or another key on the same input comes in between.
-/

namespace Bmx.Input

open JoyConfig PortLatch List Function

/-! ### The bytes of the pots -/

def potByte (value : Int32) : UInt8 := UInt8.ofBitVec (value.toBitVec.setWidth 8)

variable {i : Nat}

theorem getLsbD_potByte (value : Int32) (hi : i < 8) :
    (potByte value).toBitVec.getLsbD i = value.toBitVec.getLsbD i := by
  simp [potByte, hi]

theorem getLsbD_masked {x mask : BitVec 32} {shift : Nat} (hshift : shift + 8 ≤ 31)
    (hmask : ∀ i < 8, mask.getLsbD (shift + i) = true) (hi : i < 8) :
    ((x &&& mask).sshiftRight shift).getLsbD i = x.getLsbD (shift + i) := by
  rw [BitVec.getLsbD_sshiftRight, if_pos (by omega), BitVec.getLsbD_and, hmask i hi]
  simp
  omega

theorem getLsbD_potXOf (value : Int32) (hi : i < 8) :
    (potXOf value).toBitVec.getLsbD i = value.toBitVec.getLsbD (5 + i) := by
  have hmask : ∀ i < 8, potXBitMask.toBitVec.getLsbD (5 + i) = true := by decide
  rw [← getLsbD_masked (by omega) hmask hi]
  simp [potXOf, hi]

theorem getLsbD_potYOf (value : Int32) (hi : i < 8) :
    (potYOf value).toBitVec.getLsbD i = value.toBitVec.getLsbD (13 + i) := by
  have hmask : ∀ i < 8, potYBitMask.toBitVec.getLsbD (13 + i) = true := by decide
  rw [← getLsbD_masked (by omega) hmask hi]
  simp [potYOf, hi]

theorem byte_ext {a b : UInt8} (h : ∀ i < 8, a.toBitVec.getLsbD i = b.toBitVec.getLsbD i) : a = b :=
  UInt8.toBitVec_inj.1 (BitVec.eq_of_getLsbD_eq h)

def FitsPot (value : Int32) : Prop := 0 ≤ value ∧ value ≤ 255

instance (value : Int32) : Decidable (FitsPot value) := inferInstanceAs (Decidable (_ ∧ _))

theorem FitsPot.high_bits {value : Int32} (h : FitsPot value) (hi : 8 ≤ i) : value.toBitVec.getLsbD i = false := by
  obtain ⟨hlow, hhigh⟩ := h
  rw [Int32.le_iff_toInt_le] at hlow hhigh
  change (0 : Int) ≤ value.toInt at hlow
  change value.toInt ≤ 255 at hhigh
  have hsmall : value.toBitVec.toNat < 2 ^ 8 := by
    have hvalue : value.toInt = value.toBitVec.toInt := rfl
    rw [hvalue, BitVec.toInt_eq_toNat_cond] at hlow hhigh
    split at hlow <;> omega
  exact Nat.testBit_lt_two_pow (lt_of_lt_of_le hsmall (Nat.pow_le_pow_right (by omega) hi))

section Values

variable {value : Int32}

variable {i : Nat}

theorem getLsbD_shift {k : Nat} (hi : k + i < 32) : (value.toBitVec <<< k).getLsbD (k + i) = value.toBitVec.getLsbD i := by
  rw [BitVec.getLsbD_shiftLeft, Nat.add_sub_cancel_left]
  simp [hi]

theorem shift5 (value : Int32) : (value <<< 5).toBitVec = value.toBitVec <<< 5 := by simp

theorem shift13 (value : Int32) : (value <<< 13).toBitVec = value.toBitVec <<< 13 := by simp

theorem getLsbD_not (value : Int32) (hi : i < 32) : (~~~value).toBitVec.getLsbD i = !value.toBitVec.getLsbD i := by
  simp [hi]

theorem potXOf_shift (value : Int32) : potXOf (value <<< 5) = potByte value := by
  apply byte_ext
  intro i hi
  rw [getLsbD_potXOf _ hi, shift5, getLsbD_shift (by omega), getLsbD_potByte _ hi]

theorem potXOf_not (value : Int32) : potXOf (~~~value) = ~~~potXOf value := by
  apply byte_ext
  intro i hi
  rw [getLsbD_potXOf _ hi, getLsbD_not _ (by omega), UInt8.toBitVec_not, BitVec.getLsbD_not, getLsbD_potXOf _ hi]
  simp [hi]

theorem potYOf_shift (value : Int32) : potYOf (value <<< 13) = potByte value := by
  apply byte_ext
  intro i hi
  rw [getLsbD_potYOf _ hi, shift13, getLsbD_shift (by omega), getLsbD_potByte _ hi]

theorem potYOf_not (value : Int32) : potYOf (~~~value) = ~~~potYOf value := by
  apply byte_ext
  intro i hi
  rw [getLsbD_potYOf _ hi, getLsbD_not _ (by omega), UInt8.toBitVec_not, BitVec.getLsbD_not, getLsbD_potYOf _ hi]
  simp [hi]

theorem potYOf_potX (h : FitsPot value) : potYOf (value <<< 5) = 0 := by
  apply byte_ext
  intro i hi
  have hbit := h.high_bits (i := 8 + i) (by omega)
  rw [getLsbD_potYOf _ hi, show 13 + i = 5 + (8 + i) by omega, shift5, getLsbD_shift (by omega), hbit]
  simp

theorem potXOf_potY (value : Int32) : potXOf (value <<< 13) = 0 := by
  apply byte_ext
  intro i hi
  rw [getLsbD_potXOf _ hi]
  simp
  omega

theorem getLsbD_stickMask : (0x1f : Int32).toBitVec.getLsbD i = decide (i < 5) := by
  by_cases hi : i < 32
  · revert i
    decide
  · rw [BitVec.getLsbD_of_ge _ i (by omega)]
    simp
    omega

theorem stick_shift {k : Nat} {shifted : Int32} (hk : 5 ≤ k) (hshift : shifted.toBitVec = value.toBitVec <<< k) :
    shifted &&& 0x1f = 0 := by
  rw [← Int32.toBitVec_inj]
  apply BitVec.eq_of_getLsbD_eq
  intro i hi
  rw [Int32.toBitVec_and, BitVec.getLsbD_and, getLsbD_stickMask, hshift, BitVec.getLsbD_shiftLeft]
  by_cases hlow : i < 5
  · simp [hlow, show i < k by omega]
  · simp [hlow]

theorem stick_not {value : Int32} (h : value &&& 0x1f = 0) : (~~~value) &&& 0x1f = 0x1f := by
  rw [← Int32.toBitVec_inj] at h ⊢
  apply BitVec.eq_of_getLsbD_eq
  intro i hi
  have hbit := congrArg (fun bits => BitVec.getLsbD bits i) h
  rw [Int32.toBitVec_and] at hbit ⊢
  rw [BitVec.getLsbD_and, getLsbD_not _ hi, getLsbD_stickMask]
  simp only [BitVec.getLsbD_and, getLsbD_stickMask] at hbit
  by_cases hlow : i < 5
  · simp [hlow] at hbit ⊢
    exact hbit
  · simp [hlow]

end Values

/-! ### Ports and inputs -/

/-- The pots of a configuration are bytes, as the menu sets them. -/
structure JoyConfig.PotsFit (c : JoyConfig) : Prop where
  xHigh : FitsPot c.potXHighValue
  xLow : FitsPot c.potXLowValue
  yHigh : FitsPot c.potYHighValue
  yLow : FitsPot c.potYLowValue

def stickOf (up down left right fire : Bool) : Int32 :=
  (if up then 0x01 else 0) ||| (if down then 0x02 else 0) ||| (if left then 0x04 else 0) |||
    (if right then 0x08 else 0) ||| (if fire then 0x10 else 0)

def JoyConfig.portOf (c : JoyConfig) (active : JoyInput → Bool) : PortLatch where
  stick := stickOf (active .up) (active .down) (active .left) (active .right) (active .fire)
  potX := potByte (if active .potX then c.potXLowValue else c.potXHighValue)
  potY := potByte (if active .potY then c.potYLowValue else c.potYHighValue)

def PortLatch.Shows (c : JoyConfig) (latch : PortLatch) (active : Prop) : JoyInput → Prop
  | .up => latch.stick &&& 0x01 ≠ 0 ↔ active
  | .down => latch.stick &&& 0x02 ≠ 0 ↔ active
  | .left => latch.stick &&& 0x04 ≠ 0 ↔ active
  | .right => latch.stick &&& 0x08 ≠ 0 ↔ active
  | .fire => latch.stick &&& 0x10 ≠ 0 ↔ active
  | .potX => (active → latch.potX = potByte c.potXLowValue) ∧ (¬ active → latch.potX = potByte c.potXHighValue)
  | .potY => (active → latch.potY = potByte c.potYLowValue) ∧ (¬ active → latch.potY = potByte c.potYHighValue)

theorem portOf_shows (c : JoyConfig) (active : JoyInput → Bool) (input : JoyInput) :
    (c.portOf active).Shows c (active input = true) input := by
  have hstick : ∀ up down left right fire : Bool,
      (stickOf up down left right fire &&& 0x01 ≠ 0 ↔ up = true) ∧
        (stickOf up down left right fire &&& 0x02 ≠ 0 ↔ down = true) ∧
          (stickOf up down left right fire &&& 0x04 ≠ 0 ↔ left = true) ∧
            (stickOf up down left right fire &&& 0x08 ≠ 0 ↔ right = true) ∧
              (stickOf up down left right fire &&& 0x10 ≠ 0 ↔ fire = true) := by decide
  obtain ⟨hup, hdown, hleft, hright, hfire⟩ :=
    hstick (active .up) (active .down) (active .left) (active .right) (active .fire)
  cases input with
  | up => exact hup
  | down => exact hdown
  | left => exact hleft
  | right => exact hright
  | fire => exact hfire
  | potX | potY =>
    constructor
    · intro hactive
      simp [portOf, hactive]
    · intro hidle
      simp [portOf, hidle]

theorem idle_eq (c : JoyConfig) : c.idle = c.portOf fun _ => false := by
  simp [idle, portOf, stickOf, potByte]

def PortLatch.changes (changes : List LatchChange) (latch : PortLatch) : PortLatch :=
  changes.foldl (fun latch change => latch.change change.type change.value) latch

section Changes

variable {latch : PortLatch} {value : Int32}

theorem change_and : latch.change pendingEmuJoyTypeAnd value =
    ⟨latch.stick &&& (value &&& 0x1f), latch.potX &&& potXOf value, latch.potY &&& potYOf value⟩ := by
  unfold PortLatch.change
  rw [if_neg (by decide), if_pos rfl]

theorem change_or : latch.change pendingEmuJoyTypeOr value =
    ⟨latch.stick ||| (value &&& 0x1f), latch.potX ||| potXOf value, latch.potY ||| potYOf value⟩ := by
  unfold PortLatch.change
  rw [if_neg (by decide), if_neg (by decide), if_pos rfl]

theorem stickOf_mask (up down left right fire : Bool) :
    stickOf up down left right fire &&& 0x1f = stickOf up down left right fire := by
  revert up down left right fire
  decide

theorem pot_swap {pot old new : UInt8} (hpot : pot = old ∨ pot = new) : pot &&& ~~~old ||| new = new := by
  rcases hpot with rfl | rfl
  · rw [UInt8.and_not_self, UInt8.zero_or]
  · apply byte_ext
    intro i hi
    simp only [UInt8.toBitVec_or, UInt8.toBitVec_and, UInt8.toBitVec_not, BitVec.getLsbD_or, BitVec.getLsbD_and]
    cases pot.toBitVec.getLsbD i <;> simp

theorem byte_and_ones (a : UInt8) : a &&& 0xff = a := UInt8.and_neg_one

theorem change_stick_or (hx : potXOf value = 0) (hy : potYOf value = 0) :
    latch.change pendingEmuJoyTypeOr value = { latch with stick := latch.stick ||| (value &&& 0x1f) } := by
  rw [change_or, hx, hy, UInt8.or_zero, UInt8.or_zero]

theorem change_stick_and (hx : potXOf value = 0xff) (hy : potYOf value = 0xff) :
    latch.change pendingEmuJoyTypeAnd value = { latch with stick := latch.stick &&& (value &&& 0x1f) } := by
  rw [change_and, hx, hy, byte_and_ones, byte_and_ones]

variable {old new : Int32}

/-- The bits of a pot are exchanged, and the stick is left. -/
theorem changes_pot (hold : old &&& 0x1f = 0) (hnew : new &&& 0x1f = 0) (hstick : latch.stick &&& 0x1f = latch.stick) :
    latch.changes [⟨pendingEmuJoyTypeAnd, ~~~old⟩, ⟨pendingEmuJoyTypeOr, new⟩] =
      ⟨latch.stick, latch.potX &&& ~~~potXOf old ||| potXOf new, latch.potY &&& ~~~potYOf old ||| potYOf new⟩ := by
  unfold changes
  rw [foldl_cons, foldl_cons, foldl_nil, change_and, change_or, stick_not hold, hnew, potXOf_not,
    potYOf_not, hstick, Int32.or_zero]

theorem changes_potX (hold : FitsPot old) (hnew : FitsPot new)
    (hstick : latch.stick &&& 0x1f = latch.stick) (hpot : latch.potX = potByte old ∨ latch.potX = potByte new) :
    latch.changes [⟨pendingEmuJoyTypeAnd, ~~~(old <<< 5)⟩, ⟨pendingEmuJoyTypeOr, new <<< 5⟩] =
      { latch with potX := potByte new } := by
  rw [changes_pot (stick_shift le_rfl (shift5 old)) (stick_shift le_rfl (shift5 new)) hstick, potXOf_shift,
    potXOf_shift, potYOf_potX hold, potYOf_potX hnew, pot_swap hpot, UInt8.or_zero]
  congr 1
  exact byte_and_ones latch.potY

theorem changes_potY (hstick : latch.stick &&& 0x1f = latch.stick)
    (hpot : latch.potY = potByte old ∨ latch.potY = potByte new) :
    latch.changes [⟨pendingEmuJoyTypeAnd, ~~~(old <<< 13)⟩, ⟨pendingEmuJoyTypeOr, new <<< 13⟩] =
      { latch with potY := potByte new } := by
  rw [changes_pot (stick_shift (by omega) (shift13 old)) (stick_shift (by omega) (shift13 new)) hstick, potYOf_shift,
    potYOf_shift, potXOf_potY, potXOf_potY, pot_swap hpot, UInt8.or_zero]
  congr 1
  exact byte_and_ones latch.potX

end Changes

section Keys

variable {c : JoyConfig} {active : JoyInput → Bool}

theorem portOf_stick_mask : (c.portOf active).stick &&& 0x1f = (c.portOf active).stick := stickOf_mask _ _ _ _ _

theorem portOf_potX : (c.portOf active).potX = potByte c.potXHighValue ∨
    (c.portOf active).potX = potByte c.potXLowValue := by
  unfold portOf
  cases active .potX <;> simp

theorem portOf_potY : (c.portOf active).potY = potByte c.potYHighValue ∨
    (c.portOf active).potY = potByte c.potYLowValue := by
  unfold portOf
  cases active .potY <;> simp

theorem stickOf_press (up down left right fire : Bool) :
    stickOf up down left right fire ||| (0x01 &&& 0x1f) = stickOf true down left right fire ∧
      stickOf up down left right fire ||| (0x02 &&& 0x1f) = stickOf up true left right fire ∧
        stickOf up down left right fire ||| (0x04 &&& 0x1f) = stickOf up down true right fire ∧
          stickOf up down left right fire ||| (0x08 &&& 0x1f) = stickOf up down left true fire ∧
            stickOf up down left right fire ||| (0x10 &&& 0x1f) = stickOf up down left right true := by
  revert up down left right fire
  decide

theorem stickOf_release (up down left right fire : Bool) :
    stickOf up down left right fire &&& (~~~0x01 &&& 0x1f) = stickOf false down left right fire ∧
      stickOf up down left right fire &&& (~~~0x02 &&& 0x1f) = stickOf up false left right fire ∧
        stickOf up down left right fire &&& (~~~0x04 &&& 0x1f) = stickOf up down false right fire ∧
          stickOf up down left right fire &&& (~~~0x08 &&& 0x1f) = stickOf up down left false fire ∧
            stickOf up down left right fire &&& (~~~0x10 &&& 0x1f) = stickOf up down left right false := by
  revert up down left right fire
  decide

theorem press_changes (hfit : c.PotsFit) (input : JoyInput) :
    (c.portOf active).changes (c.pressChanges input) = c.portOf (update active input true) := by
  obtain ⟨hup, hdown, hleft, hright, hfire⟩ :=
    stickOf_press (active .up) (active .down) (active .left) (active .right) (active .fire)
  cases input with
  | up | down | left | right | fire =>
    unfold changes pressChanges
    rw [foldl_cons, foldl_nil, change_stick_or (by decide) (by decide)]
    simp [portOf, hup, hdown, hleft, hright, hfire]
  | potX =>
    unfold pressChanges
    rw [changes_potX hfit.xHigh hfit.xLow portOf_stick_mask portOf_potX]
    simp [portOf]
  | potY =>
    unfold pressChanges
    rw [changes_potY portOf_stick_mask portOf_potY]
    simp [portOf]

theorem release_changes (hfit : c.PotsFit) (input : JoyInput) :
    (c.portOf active).changes (c.releaseChanges input) = c.portOf (update active input false) := by
  obtain ⟨hup, hdown, hleft, hright, hfire⟩ :=
    stickOf_release (active .up) (active .down) (active .left) (active .right) (active .fire)
  cases input with
  | up | down | left | right | fire =>
    unfold changes releaseChanges
    rw [foldl_cons, foldl_nil, change_stick_and (by decide) (by decide)]
    simp only [portOf, hup, hdown, hleft, hright, hfire]
    simp
  | potX =>
    unfold releaseChanges
    rw [changes_potX hfit.xLow hfit.xHigh portOf_stick_mask portOf_potX.symm]
    simp [portOf]
  | potY =>
    unfold releaseChanges
    rw [changes_potY portOf_stick_mask portOf_potY.symm]
    simp [portOf]

end Keys

/-! ### The queue -/

def joyEvents (calls : List KbdCall) : List PendingEmuJoy := calls.filterMap fun
  | .emuxJoyInterrupt type port device value => some ⟨value, port, type, device⟩
  | _ => none

theorem joyEvents_append (calls later : List KbdCall) :
    joyEvents (calls ++ later) = joyEvents calls ++ joyEvents later := filterMap_append

theorem queueCalls (c : JoyConfig) {q : JoyQueue} (h : q.Kept portReader (fun _ => c.idle) joyChangeOf)
    (calls : List KbdCall)
    (hroom : q.ring.pending + (joyEvents calls).length ≤ pendingEmuJoySize) :
    (calls.foldl (fun q call => JoyQueue.call call q) q).Kept portReader (fun _ => c.idle) joyChangeOf ∧
      (calls.foldl (fun q call => JoyQueue.call call q) q).accepted = q.accepted ++ joyEvents calls := by
  induction calls generalizing q with
  | nil => exact ⟨h, (append_nil _).symm⟩
  | cons call rest ih =>
    rw [foldl_cons]
    by_cases hjoy : joyEvents [call] = []
    · have hcall : JoyQueue.call call q = q := by
        cases call with
        | emuxJoyInterrupt type port device value => simp [joyEvents] at hjoy
        | _ => rfl
      have hevents : joyEvents (call :: rest) = joyEvents rest := by
        change joyEvents ([call] ++ rest) = _
        rw [joyEvents_append, hjoy, nil_append]
      rw [hevents] at hroom ⊢
      rw [hcall]
      exact ih h hroom
    · cases call with
      | emuxJoyInterrupt type port device value =>
        have hevents : joyEvents (.emuxJoyInterrupt type port device value :: rest) =
            ⟨value, port, type, device⟩ :: joyEvents rest := rfl
        rw [hevents, length_cons] at hroom
        have hnext : (JoyQueue.call (.emuxJoyInterrupt type port device value) q).Kept portReader (fun _ => c.idle)
            joyChangeOf :=
          h.queue (by decide) (by decide) (by omega) _
        have haccepted : (JoyQueue.call (.emuxJoyInterrupt type port device value) q).accepted =
            q.accepted ++ [⟨value, port, type, device⟩] := rfl
        have hpending : (JoyQueue.call (.emuxJoyInterrupt type port device value) q).ring.pending =
            q.ring.pending + 1 := by
          have hbefore := h.ring.length
          have hafter := hnext.ring.length
          rw [haccepted, length_append, length_singleton] at hafter
          change (q.handled.length : Int) + _ = _ at hafter
          omega
        obtain ⟨hkept, hall⟩ := ih hnext (by omega)
        refine ⟨hkept, ?_⟩
        rw [hall, haccepted, hevents, append_assoc, singleton_append]
      | _ => exact absurd rfl hjoy

def applyEvents (events : List PendingEmuJoy) (latches : Fin 2 → PortLatch) : Fin 2 → PortLatch :=
  events.foldl (fun latches event => latchPorts (joyChangeOf event) latches) latches

theorem applyEvents_append (events later : List PendingEmuJoy) (latches : Fin 2 → PortLatch) :
    applyEvents (events ++ later) latches = applyEvents later (applyEvents events latches) := foldl_append

theorem ports_eq {c : JoyConfig} {r : JoyRun} (h : r.joys.Kept portReader (fun _ => c.idle) joyChangeOf) :
    r.ports = applyEvents r.joys.accepted fun _ => c.idle := by
  have hconsumer : r.joys.consumer =
      applyEvents (r.joys.accepted.take r.joys.handled.length) fun _ => c.idle := by
    rw [h.consumer]
    conv_lhs => rw [h.handled]
    rw [foldl_map]
    rfl
  unfold JoyRun.ports JoyRing.waiting
  rw [h.ring.contents, hconsumer]
  change applyEvents _ (applyEvents _ _) = _
  rw [← applyEvents_append, take_append_drop]

theorem applyEvents_changes (changes : List LatchChange) (port device : Int32) (latches : Fin 2 → PortLatch) :
    applyEvents (changes.map fun change => ⟨change.value, port, change.type, device⟩) latches =
      match joyLatchOf port with
      | none => latches
      | some idx => update latches idx ((latches idx).changes changes) := by
  induction changes generalizing latches with
  | nil =>
    cases joyLatchOf port with
    | none => rfl
    | some idx => exact (update_eq_self idx latches).symm
  | cons change rest ih =>
    change applyEvents _ (latchPorts ⟨change.value, change.type, port⟩ latches) = _
    rw [ih]
    unfold latchPorts
    cases joyLatchOf port with
    | none => rfl
    | some idx =>
      simp only [update_self, update_idem]
      rfl

/-! ### Keys and the inputs they are mapped to -/

namespace JoyConfig

/-- The keys that are mapped to an input of a port. -/
def keysOf (c : JoyConfig) (idx : Fin 2) (input : JoyInput) : List Int64 :=
  (finRange 2).filterMap fun device =>
    if (c.joydevs device).device.isKeyboard ∧ joyLatchOf (c.joydevs device).port = some idx then
      c.keyOf (c.joydevs device).device input
    else none

/-- The device and the input that the handlers find for a key. -/
def deviceInput (c : JoyConfig) (key : Int64) (device : Fin 2) : Option (Fin 2 × JoyInput) :=
  if (c.joydevs device).device.isKeyboard then
    (c.inputOf (c.joydevs device).device key.toInt32).map fun input => (device, input)
  else none

def takenInput (c : JoyConfig) (key : Int64) : Option (Fin 2 × JoyInput) :=
  (finRange 2).findSome? (c.deviceInput key)

/-- A key is mapped to an input of a port just where the handlers take it for that input. -/
def MeansOne (c : JoyConfig) (key : Int64) : Prop :=
  ∀ (idx : Fin 2), ∀ input, key ∈ c.keysOf idx input ↔
    ∃ device, c.takenInput key = some (device, input) ∧ joyLatchOf (c.joydevs device).port = some idx

/-- What the handlers put into the queue for a key. -/
def eventsOf (c : JoyConfig) (changes : JoyInput → List LatchChange) (key : Int64) : List PendingEmuJoy :=
  match c.takenInput key with
  | none => []
  | some (device, input) =>
    (changes input).map fun change =>
      ⟨change.value, (c.joydevs device).port, change.type, (c.joydevs device).device.code⟩

end JoyConfig

namespace Kbd

variable {c : KbdConfig} {s : Kbd}

/-- With the menu down, the devices take a key for the first input it is mapped to. -/
theorem joyTakes_eq (changes : JoyInput → List LatchChange) (pressed : Bool) (key : Int64) :
    joyTakes c (c.joy.joyKey changes pressed false) key = (c.joy.takenInput key).map fun taken =>
      (changes taken.2).map fun change =>
        .emuxJoyInterrupt change.type (c.joy.joydevs taken.1).port (c.joy.joydevs taken.1).device.code change.value := by
  have hdevice : ∀ device : Fin 2, deviceTakes c (c.joy.joyKey changes pressed false) device key =
      (c.joy.deviceInput key device).map fun taken =>
        (changes taken.2).map fun change => KbdCall.emuxJoyInterrupt change.type (c.joy.joydevs taken.1).port
          (c.joy.joydevs taken.1).device.code change.value := by
    intro device
    unfold deviceTakes deviceInput joyKey
    by_cases hkeyboard : (c.joy.joydevs device).device.isKeyboard = true
    · simp only [hkeyboard, if_true, Bool.false_eq_true, if_false]
      cases c.joy.inputOf (c.joy.joydevs device).device key.toInt32 <;> rfl
    · simp only [hkeyboard]
      rfl
  unfold joyTakes takenInput
  rw [funext hdevice, map_findSome?]
  rfl

variable {changes : JoyInput → List LatchChange} {pressed : Bool} {key : Int64} {calls : List KbdCall}

theorem joyTakes_menu
    (h : joyTakes c (c.joy.joyKey changes pressed true) key = some calls) : joyEvents calls = [] := by
  have hdevice : ∀ device : Fin 2, deviceTakes c (c.joy.joyKey changes pressed true) device key = some calls →
      joyEvents calls = [] := by
    intro device hcalls
    have hkey := deviceTakes_some hcalls
    unfold joyKey at hkey
    rw [if_pos rfl] at hkey
    split at hkey
    · cases hinput : c.joy.inputOf (c.joy.joydevs device).device key.toInt32 with
      | none => simp [hinput] at hkey
      | some input =>
        cases hnavigation : input.navigation with
        | none => simp [hinput, hnavigation] at hkey
        | some navigation =>
          obtain rfl : [KbdCall.emuUiKeyInterrupt navigation pressed] = calls := by
            simpa [hinput, hnavigation] using hkey
          rfl
    · cases hkey
  obtain ⟨device, -, hcalls⟩ := exists_of_findSome?_eq_some h
  exact hdevice device hcalls

theorem joyEvents_taken {uiEnabled : Bool}
    (h : joyTakes c (c.joy.joyKey changes pressed uiEnabled) key = some calls) :
    joyEvents calls = if uiEnabled then [] else c.joy.eventsOf changes key := by
  cases uiEnabled with
  | true => exact joyTakes_menu h
  | false =>
    rw [joyTakes_eq] at h
    obtain ⟨⟨device, input⟩, htaken, rfl⟩ := Option.map_eq_some_iff.1 h
    unfold eventsOf joyEvents
    rw [htaken, filterMap_map]
    exact congrFun filterMap_eq_map _

theorem eventsOf_free (pressed : Bool)
    (h : joyTakes c (c.joy.joyKey changes pressed false) key = none) : c.joy.eventsOf changes key = [] := by
  rw [joyTakes_eq, Option.map_eq_none_iff] at h
  unfold eventsOf
  rw [h]

theorem joyEvents_passOn (s : Kbd) (key : Int64) (pressed : Bool) (mod : Int32) :
    joyEvents (s.passOn key pressed mod) = [] := by
  unfold passOn
  split <;> rfl

theorem joyEvents_noteRelease (s : Kbd) (key : Int64) (ticks : UInt64) :
    joyEvents (s.noteRelease c key ticks).1 = [] := by
  unfold noteRelease
  split_ifs <;> rfl

theorem joyEvents_comboCalls (s : Kbd) (slots : List (Fin 8)) :
    joyEvents (slots.flatMap fun slot => s.comboCalls slot) = [] := by
  unfold joyEvents
  rw [filterMap_flatMap, flatMap_eq_nil_iff]
  intro slot _
  unfold comboCalls
  split_ifs <;> rfl

theorem joyEvents_comboRelease (s : Kbd) (key : Int64) : joyEvents (s.handleKeyComboRelease key).2.1 = [] := by
  unfold handleKeyComboRelease
  split
  · split <;> rfl
  · rfl

theorem joyEvents_finishRelease (s : Kbd) (key : Int64) (mod : Int32) :
    joyEvents (s.finishRelease c key mod).1 = [] := by
  unfold finishRelease
  have hcombo := joyEvents_comboRelease s key
  rcases hrelease : s.handleKeyComboRelease key with ⟨taken, calls, t⟩
  rw [hrelease] at hcombo
  cases taken with
  | true => exact hcombo
  | false =>
    dsimp only at hcombo ⊢
    by_cases hmodifier : key = c.commodoreKeySym ∨ key = c.ctrlKeySym
    · rw [if_pos hmodifier]
      dsimp only [handleKeyComboFunction]
      rw [joyEvents_append, joyEvents_append, hcombo, joyEvents_passOn, joyEvents_comboCalls]
      rfl
    · rw [if_neg hmodifier]
      rw [joyEvents_append, hcombo, joyEvents_passOn]
      rfl

/-- A press, and a release, reaches the joysticks. -/
def SeesPress (s : Kbd) : Prop := s.rawKeycodeFunc = false ∧ s.uiEnabled = false

def SeesRelease (key : Int64) (s : Kbd) : Prop := s.rawKeycodeFunc = false ∧ s.uiEnabled = false ∧ key ≠ keycodeF12

instance (s : Kbd) : Decidable s.SeesPress := inferInstanceAs (Decidable (_ ∧ _))

instance (key : Int64) (s : Kbd) : Decidable (SeesRelease key s) := inferInstanceAs (Decidable (_ ∧ _ ∧ _))

theorem joyEvents_pressed (s : Kbd) (key : Int64) (mod : Int32) (ticks : UInt64) :
    joyEvents (s.emuKeyPressedMod c key mod ticks).1 =
      if s.SeesPress then c.joy.eventsOf c.joy.pressChanges key else [] := by
  have hpressed := pressed c key mod ticks s
  have hunseen : s.uiEnabled = true → ¬ s.SeesPress := fun hui hsees => by simp [hsees.2] at hui
  have hfree : joyTakes c (c.joy.joyKeyDown s.uiEnabled) key = none →
      (if s.SeesPress then c.joy.eventsOf c.joy.pressChanges key else []) = [] := by
    intro htakes
    by_cases hsees : s.SeesPress
    · rw [hsees.2] at htakes
      rw [if_pos hsees]
      exact eventsOf_free true htakes
    · rw [if_neg hsees]
  generalize s.emuKeyPressedMod c key mod ticks = result at hpressed
  cases hpressed with
  | swallowed hraw =>
    rw [if_neg fun hsees => by simp [hsees.1] at hraw]
    rfl
  | taken hraw htakes =>
    have hevents := joyEvents_taken htakes
    cases hui : s.uiEnabled with
    | true =>
      rw [if_neg (hunseen hui), hevents, hui]
      rfl
    | false =>
      rw [if_pos ⟨hraw, hui⟩, hevents, hui]
      rfl
  | consumed hraw htakes hslot =>
    rw [hfree htakes]
    rfl
  | passed hraw htakes hslot =>
    rw [hfree htakes]
    exact joyEvents_passOn s key true mod

theorem joyEvents_released (s : Kbd) (key : Int64) (mod : Int32) (ticks : UInt64) :
    joyEvents (s.emuKeyReleasedMod c key mod ticks).1 =
      if s.SeesRelease key then c.joy.eventsOf c.joy.releaseChanges key else [] := by
  have hui := noteRelease_ui (c := c) (s := s) key ticks
  have hnoted := joyEvents_noteRelease (c := c) s key ticks
  unfold emuKeyReleasedMod
  by_cases hraw : s.rawKeycodeFunc = true
  · rw [if_pos hraw, if_neg fun hsees => by simp [hsees.1] at hraw]
    rfl
  · rw [if_neg hraw]
    replace hraw : s.rawKeycodeFunc = false := Bool.eq_false_of_not_eq_true hraw
    simp only [hui]
    by_cases hkey : key = keycodeF12
    · have hunseen : ¬ s.SeesRelease key := fun hsees => hsees.2.2 hkey
      rw [if_pos hkey, if_neg hunseen]
      split <;> rw [joyEvents_append, hnoted] <;> rfl
    · rw [if_neg hkey]
      cases htakes : joyTakes c (c.joy.joyKeyUp s.uiEnabled) key with
      | some calls =>
        have hevents := joyEvents_taken htakes
        rw [joyEvents_append, hnoted, nil_append, hevents]
        cases henabled : s.uiEnabled with
        | true =>
          have hunseen : ¬ s.SeesRelease key := fun hsees => by simp [hsees.2.1] at henabled
          rw [if_neg hunseen]
          rfl
        | false =>
          have hsees : s.SeesRelease key := ⟨hraw, henabled, hkey⟩
          rw [if_pos hsees]
          rfl
      | none =>
        rw [joyEvents_append, hnoted, nil_append, joyEvents_finishRelease]
        by_cases hsees : s.SeesRelease key
        · rw [hsees.2.1] at htakes
          rw [if_pos hsees]
          exact (eventsOf_free false htakes).symm
        · rw [if_neg hsees]

end Kbd

/-! ### Runs -/

namespace JoyRun

variable {c : KbdConfig} {r : JoyRun} {key : Int64} {mod : Int32} {ticks : UInt64}

/-- The inputs follow the keys, once the queued events are applied. -/
structure JoystickExact (c : KbdConfig) (r : JoyRun) : Prop where
  /-- An input is active just where a key of it is held from a press with the menu down. -/
  follows : ∀ idx input,
    (r.ports idx).Shows c.joy (∃ key ∈ c.joy.keysOf idx input, r.driving key = true) input
  held : ∀ key, r.driving key = true → r.held key = true
  /-- Where no key of an input is held from a press in the menu, it is active just where one is held. -/
  physical : ∀ idx input, (∀ key ∈ c.joy.keysOf idx input, r.held key = true → r.driving key = true) →
    (r.ports idx).Shows c.joy (∃ key ∈ c.joy.keysOf idx input, r.held key = true) input

/-- With the menu down, a key goes to the one input it is mapped to, and its events find free slots. -/
def CleanPress (c : KbdConfig) (key : Int64) (r : JoyRun) : Prop :=
  r.kbd.uiEnabled = false →
    c.joy.MeansOne key ∧ (r.kbd.rawKeycodeFunc = false ∨ c.joy.takenInput key = none) ∧
      r.joys.ring.pending + (c.joy.eventsOf c.joy.pressChanges key).length ≤ pendingEmuJoySize

/-- A key that was pressed with the menu down reaches the joysticks as it is released. A release that does finds no
other such key on its input, and free slots. -/
def CleanRelease (c : KbdConfig) (key : Int64) (r : JoyRun) : Prop :=
  (r.driving key = true → c.joy.takenInput key ≠ none → Kbd.SeesRelease key r.kbd) ∧
  (Kbd.SeesRelease key r.kbd →
    r.joys.ring.pending + (c.joy.eventsOf c.joy.releaseChanges key).length ≤ pendingEmuJoySize ∧
      ∀ taken ∈ c.joy.takenInput key, ∀ idx ∈ joyLatchOf (c.joy.joydevs taken.1).port,
        ∀ other ∈ c.joy.keysOf idx taken.2, other ≠ key → r.driving other = false)

def Clean (c : KbdConfig) (action : JoyAction) (r : JoyRun) : Prop :=
  match action with
  | .key (.press key _ _) => CleanPress c key r
  | .key (.release key _ _) => CleanRelease c key r
  | _ => True

def CleanRun (c : KbdConfig) (r : JoyRun) : List JoyAction → Prop
  | [] => True
  | action :: rest => Clean c action r ∧ CleanRun c (r.step c action) rest

instance : Fintype JoyInput where
  elems := ⟨JoyInput.all, by decide⟩
  complete := fun input => by cases input <;> decide

instance (joy : JoyConfig) (key : Int64) : Decidable (joy.MeansOne key) :=
  inferInstanceAs (Decidable (∀ _ : Fin 2, ∀ _ : JoyInput, _))

instance (c : KbdConfig) (key : Int64) (r : JoyRun) : Decidable (CleanPress c key r) :=
  inferInstanceAs (Decidable (_ → _ ∧ _ ∧ _))

instance (c : KbdConfig) (key : Int64) (r : JoyRun) : Decidable (CleanRelease c key r) :=
  inferInstanceAs (Decidable (_ ∧ (_ → _ ∧ _)))

instance (c : KbdConfig) (action : JoyAction) (r : JoyRun) : Decidable (Clean c action r) :=
  match action with
  | .key (.press key _ _) => inferInstanceAs (Decidable (CleanPress c key r))
  | .key (.release key _ _) => inferInstanceAs (Decidable (CleanRelease c key r))
  | .key (.setUiEnabled _) | .key .setRawKeycodeFunc | .drainJoy => inferInstanceAs (Decidable True)

def decideCleanRun (c : KbdConfig) (r : JoyRun) : (actions : List JoyAction) → Decidable (CleanRun c r actions)
  | [] => inferInstanceAs (Decidable True)
  | action :: rest =>
    have := decideCleanRun c (r.step c action) rest
    inferInstanceAs (Decidable (Clean c action r ∧ CleanRun c (r.step c action) rest))

instance (c : KbdConfig) (r : JoyRun) (actions : List JoyAction) : Decidable (CleanRun c r actions) :=
  decideCleanRun c r actions

def active (c : KbdConfig) (r : JoyRun) (idx : Fin 2) (input : JoyInput) : Bool :=
  (c.joy.keysOf idx input).any r.driving

theorem active_iff {idx : Fin 2} {input : JoyInput} :
    r.active c idx input = true ↔ ∃ key ∈ c.joy.keysOf idx input, r.driving key = true := any_eq_true

/-- What holds after every clean step. -/
structure Follows (c : KbdConfig) (r : JoyRun) : Prop where
  queue : r.joys.Kept portReader (fun _ => c.joy.idle) joyChangeOf
  ports : ∀ idx, applyEvents r.joys.accepted (fun _ => c.joy.idle) idx = c.joy.portOf (r.active c idx)
  means : ∀ key, r.driving key = true → c.joy.MeansOne key
  held : ∀ key, r.driving key = true → r.held key = true

theorem Follows.exact (h : Follows c r) : JoystickExact c r := by
  have hfollows : ∀ idx input,
      (r.ports idx).Shows c.joy (∃ key ∈ c.joy.keysOf idx input, r.driving key = true) input := by
    intro idx input
    rw [ports_eq h.queue, h.ports, ← active_iff]
    exact portOf_shows c.joy (r.active c idx) input
  refine ⟨hfollows, h.held, ?_⟩
  intro idx input hall
  have hsame : (∃ key ∈ c.joy.keysOf idx input, r.held key = true) ↔
      ∃ key ∈ c.joy.keysOf idx input, r.driving key = true := by
    constructor
    · rintro ⟨key, hkey, hheld⟩
      exact ⟨key, hkey, hall key hkey hheld⟩
    · rintro ⟨key, hkey, hdriving⟩
      exact ⟨key, hkey, h.held key hdriving⟩
  rw [hsame]
  exact hfollows idx input

theorem start_follows (c : KbdConfig) : Follows c (start c) := by
  constructor
  · have hnone : ((0 : Int32) - 0).toInt = 0 := by decide
    exact ⟨⟨0, hnone, Interaction.Feed.window_empty _⟩, rfl, rfl, trivial⟩
  · intro idx
    have hidle : (start c).active c idx = fun _ => false := by
      funext input
      simp [active, start]
    rw [hidle]
    exact idle_eq c.joy
  · intro key hdriving
    cases hdriving
  · intro key hdriving
    cases hdriving

theorem accepted_step {action : KbdAction} (h : Follows c r)
    (hroom : r.joys.ring.pending + (joyEvents (r.kbd.act c action).1).length ≤ pendingEmuJoySize) :
    (r.step c (.key action)).joys.Kept portReader (fun _ => c.joy.idle) joyChangeOf ∧
      (r.step c (.key action)).joys.accepted = r.joys.accepted ++ joyEvents (r.kbd.act c action).1 :=
  queueCalls c.joy h.queue _ hroom

variable {value : Bool}

theorem applyEvents_eventsOf {joy : JoyConfig} {changes : JoyInput → List LatchChange}
    {latches : Fin 2 → PortLatch} {active next : Fin 2 → JoyInput → Bool}
    (hlatches : ∀ idx, latches idx = joy.portOf (active idx))
    (hchanges : ∀ active input, (joy.portOf active).changes (changes input) =
      joy.portOf (update active input value))
    (hsame : ∀ idx input,
      (¬ ∃ device, joy.takenInput key = some (device, input) ∧ joyLatchOf (joy.joydevs device).port = some idx) →
        next idx input = active idx input)
    (htaken : ∀ device idx input, joy.takenInput key = some (device, input) →
      joyLatchOf (joy.joydevs device).port = some idx → next idx input = value) (idx : Fin 2) :
    applyEvents (joy.eventsOf changes key) latches idx = joy.portOf (next idx) := by
  unfold eventsOf
  cases hkey : joy.takenInput key with
  | none =>
    have hnext : next idx = active idx := by
      funext input
      exact hsame idx input (by simp [hkey])
    rw [hnext]
    exact hlatches idx
  | some taken =>
    obtain ⟨device, input⟩ := taken
    rw [applyEvents_changes]
    cases hport : joyLatchOf (joy.joydevs device).port with
    | none =>
      have hnext : next idx = active idx := by
        funext other
        apply hsame idx other
        rintro ⟨same, hsome, hlatch⟩
        rw [hkey, Option.some.injEq, Prod.mk.injEq] at hsome
        rw [← hsome.1, hport] at hlatch
        cases hlatch
      rw [hnext]
      exact hlatches idx
    | some changed =>
      have hnext : ∀ idx other, ¬ (idx = changed ∧ other = input) → next idx other = active idx other := by
        intro idx other hne
        apply hsame idx other
        rintro ⟨same, hsome, hlatch⟩
        rw [hkey, Option.some.injEq, Prod.mk.injEq] at hsome
        rw [← hsome.1, hport, Option.some.injEq] at hlatch
        exact hne ⟨hlatch.symm, hsome.2.symm⟩
      dsimp only
      by_cases hidx : idx = changed
      · subst hidx
        rw [update_self, hlatches, hchanges]
        congr 1
        funext other
        by_cases hother : other = input
        · subst hother
          rw [update_self]
          exact (htaken device idx other hkey hport).symm
        · rw [update_of_ne hother]
          exact (hnext idx other fun h => hother h.2).symm
      · rw [update_of_ne hidx, hlatches]
        congr 1
        funext other
        exact (hnext idx other fun h => hidx h.1).symm

/-- A key that is mapped to none of an input's keys makes no difference to it. -/
theorem any_update {keys : List Int64} {driving : Int64 → Bool} (h : driving key ≠ value → key ∉ keys) :
    keys.any (update driving key value) = keys.any driving := by
  by_cases hsame : driving key = value
  · rw [← hsame, update_eq_self]
  · rw [Bool.eq_iff_iff, any_eq_true, any_eq_true]
    have hother : ∀ other ∈ keys, update driving key value other = driving other := by
      intro other hmem
      apply update_of_ne
      rintro rfl
      exact h hsame hmem
    constructor
    · rintro ⟨other, hmem, hdriving⟩
      exact ⟨other, hmem, hother other hmem ▸ hdriving⟩
    · rintro ⟨other, hmem, hdriving⟩
      exact ⟨other, hmem, (hother other hmem).symm ▸ hdriving⟩

theorem Follows.press (hfit : c.joy.PotsFit) (h : Follows c r) (hclean : CleanPress c key r) :
    Follows c (r.step c (.key (.press key mod ticks))) := by
  have hevents : joyEvents (r.kbd.act c (.press key mod ticks)).1 =
      if r.kbd.SeesPress then c.joy.eventsOf c.joy.pressChanges key else [] :=
    Kbd.joyEvents_pressed r.kbd key mod ticks
  have hroom : r.joys.ring.pending + (joyEvents (r.kbd.act c (.press key mod ticks)).1).length ≤
      pendingEmuJoySize := by
    rw [hevents]
    by_cases hsees : r.kbd.SeesPress
    · rw [if_pos hsees]
      exact (hclean hsees.2).2.2
    · rw [if_neg hsees, length_nil]
      have hbounded := h.queue.ring.bounded
      omega
  obtain ⟨hqueue, haccepted⟩ := accepted_step h hroom
  have hdriving : (r.step c (.key (.press key mod ticks))).driving =
      update r.driving key (r.driving key || !r.kbd.uiEnabled) := rfl
  refine ⟨hqueue, ?_, ?_, ?_⟩
  · intro idx
    rw [haccepted, applyEvents_append, hevents]
    unfold active
    rw [hdriving]
    cases hui : r.kbd.uiEnabled with
    | true =>
      have hunseen : ¬ r.kbd.SeesPress := fun hsees => by simp [hsees.2] at hui
      rw [if_neg hunseen, Bool.not_true, Bool.or_false, update_eq_self]
      exact h.ports idx
    | false =>
      obtain ⟨hmeans, hraw, -⟩ := hclean hui
      rw [Bool.not_false, Bool.or_true]
      have hevents' : (if r.kbd.SeesPress then c.joy.eventsOf c.joy.pressChanges key else []) =
          c.joy.eventsOf c.joy.pressChanges key := by
        rcases hraw with hraw | hnone
        · rw [if_pos ⟨hraw, hui⟩]
        · have hempty : c.joy.eventsOf c.joy.pressChanges key = [] := by
            unfold eventsOf
            rw [hnone]
          rw [hempty, ite_self]
      rw [hevents']
      apply applyEvents_eventsOf h.ports (fun active input => press_changes hfit input)
      · intro idx input hnot
        exact any_update fun _ hmem => hnot ((hmeans idx input).1 hmem)
      · intro device idx input hkey hport
        rw [any_eq_true]
        exact ⟨key, (hmeans idx input).2 ⟨device, hkey, hport⟩, update_self key true r.driving⟩
  · intro other hother
    rw [hdriving] at hother
    by_cases hkey : other = key
    · subst hkey
      rw [update_self] at hother
      cases hui : r.kbd.uiEnabled with
      | true =>
        rw [hui, Bool.not_true, Bool.or_false] at hother
        exact h.means other hother
      | false => exact (hclean hui).1
    · rw [update_of_ne hkey] at hother
      exact h.means other hother
  · intro other hother
    change update r.held key true other = true
    by_cases hkey : other = key
    · rw [hkey, update_self]
    · rw [hdriving, update_of_ne hkey] at hother
      rw [update_of_ne hkey]
      exact h.held other hother

theorem Follows.release (hfit : c.joy.PotsFit) (h : Follows c r) (hclean : CleanRelease c key r) :
    Follows c (r.step c (.key (.release key mod ticks))) := by
  have hevents : joyEvents (r.kbd.act c (.release key mod ticks)).1 =
      if r.kbd.SeesRelease key then c.joy.eventsOf c.joy.releaseChanges key else [] :=
    Kbd.joyEvents_released r.kbd key mod ticks
  have hroom : r.joys.ring.pending + (joyEvents (r.kbd.act c (.release key mod ticks)).1).length ≤
      pendingEmuJoySize := by
    rw [hevents]
    by_cases hsees : r.kbd.SeesRelease key
    · rw [if_pos hsees]
      exact (hclean.2 hsees).1
    · rw [if_neg hsees, length_nil]
      have hbounded := h.queue.ring.bounded
      omega
  obtain ⟨hqueue, haccepted⟩ := accepted_step h hroom
  have hdriving : (r.step c (.key (.release key mod ticks))).driving = update r.driving key false := rfl
  have hrest : ∀ other, update r.driving key false other = true → other ≠ key ∧ r.driving other = true := by
    intro other hother
    by_cases hkey : other = key
    · rw [hkey, update_self] at hother
      cases hother
    · rw [update_of_ne hkey] at hother
      exact ⟨hkey, hother⟩
  refine ⟨hqueue, ?_, ?_, ?_⟩
  · intro idx
    rw [haccepted, applyEvents_append, hevents]
    unfold active
    by_cases hsees : r.kbd.SeesRelease key
    · rw [if_pos hsees]
      apply applyEvents_eventsOf h.ports (fun active input => release_changes hfit input)
      · intro idx input hnot
        refine any_update fun hdrives hmem => ?_
        exact hnot ((h.means key (Bool.eq_true_of_not_eq_false hdrives) idx input).1 hmem)
      · intro device idx input hkey hport
        rw [← Bool.not_eq_true, any_eq_true]
        rintro ⟨other, hmem, hother⟩
        obtain ⟨hne, hdrives⟩ := hrest other hother
        rw [(hclean.2 hsees).2 (device, input) hkey idx hport other hmem hne] at hdrives
        cases hdrives
    · rw [if_neg hsees]
      have hnext : (fun input => (c.joy.keysOf idx input).any (update r.driving key false)) =
          r.active c idx := by
        funext input
        refine any_update fun hdrives hmem => ?_
        have hdrives' := Bool.eq_true_of_not_eq_false hdrives
        obtain ⟨device, htaken, -⟩ := (h.means key hdrives' idx input).1 hmem
        exact hsees (hclean.1 hdrives' (by simp [htaken]))
      change applyEvents [] _ idx = c.joy.portOf fun input =>
        (c.joy.keysOf idx input).any (update r.driving key false)
      rw [hnext]
      exact h.ports idx
  · intro other hother
    exact h.means other (hrest other hother).2
  · intro other hother
    obtain ⟨hne, hdrives⟩ := hrest other hother
    change update r.held key false other = true
    rw [update_of_ne hne]
    exact h.held other hdrives

theorem step_follows (hfit : c.joy.PotsFit) {action : JoyAction} (h : Follows c r) (hclean : Clean c action r) :
    Follows c (r.step c action) := by
  cases action with
  | key action =>
    cases action with
    | press key mod ticks => exact h.press hfit hclean
    | release key mod ticks => exact h.release hfit hclean
    | setUiEnabled enabled | setRawKeycodeFunc => exact ⟨h.queue, h.ports, h.means, h.held⟩
  | drainJoy =>
    refine ⟨h.queue.drainStep (by decide) (fun event => rfl), ?_, h.means, h.held⟩
    intro idx
    have haccepted : (r.step c .drainJoy).joys.accepted = r.joys.accepted :=
      EventQueue.accepted_drainStep portReader r.joys
    rw [haccepted]
    exact h.ports idx

theorem run_follows (hfit : c.joy.PotsFit) {actions : List JoyAction} (h : Follows c r)
    (hclean : CleanRun c r actions) : Follows c (r.run c actions) := by
  induction actions generalizing r with
  | nil => exact h
  | cons action rest ih => exact ih (step_follows hfit h hclean.1) hclean.2

/-- In every run of clean steps, the inputs follow the keys. -/
theorem run_joystick (c : KbdConfig) (hfit : c.joy.PotsFit) (actions : List JoyAction)
    (hclean : CleanRun c (start c) actions) : JoystickExact c ((start c).run c actions) :=
  (run_follows hfit (start_follows c) hclean).exact

section Example

/-- The numpad drives the first port, and a keyset the second. -/
def exampleConfig : KbdConfig where
  joy :=
    { joydevs := ![⟨1, .nums1⟩, ⟨2, .keyset1⟩]
      keysetCodes := fun _ input =>
        match input with
        | .up => 0x1A
        | .down => 0x16
        | .left => 0x04
        | .right => 0x07
        | .fire => 0x2C
        | .potX => 0x08
        | .potY => 0x14
      potXHighValue := 192, potXLowValue := 64, potYHighValue := 192, potYLowValue := 64 }
  commodoreKeySym := keycodeLeftControl
  ctrlKeySym := 0x2B

/-- The menu is up while no key is held from before. -/
def exampleClean : List JoyAction := [.key (.press keycodeKP8 0 0), .key (.press 0x08 0 0), .drainJoy,
  .key (.release keycodeKP8 0 0), .key (.release 0x08 0 0), .key (.setUiEnabled true), .key (.press keycodeKP2 0 0),
  .key (.release keycodeKP2 0 0), .key (.setUiEnabled false), .key (.press keycodeKP5 0 0)]

/-- A direction is released while the menu is up. -/
def exampleMenu : List JoyAction := [.key (.press keycodeKP8 0 0), .key (.setUiEnabled true),
  .key (.release keycodeKP8 0 0), .key (.setUiEnabled false)]

theorem run_joystick_example : JoystickExact exampleConfig ((start exampleConfig).run exampleConfig exampleClean) :=
  run_joystick exampleConfig ⟨by decide, by decide, by decide, by decide⟩ exampleClean (by decide)

/-- The direction is left active, with no key held. -/
theorem menu_release_lost :
    (∀ key ∈ exampleConfig.joy.keysOf 0 .up, ((start exampleConfig).run exampleConfig exampleMenu).held key = false) ∧
      ¬ JoystickExact exampleConfig ((start exampleConfig).run exampleConfig exampleMenu) := by
  have hall : (exampleConfig.joy.keysOf 0 .up).all
      (fun key => ((start exampleConfig).run exampleConfig exampleMenu).held key == false) = true := by decide
  have hup : ∀ key ∈ exampleConfig.joy.keysOf 0 .up,
      ((start exampleConfig).run exampleConfig exampleMenu).held key = false :=
    fun key hkey => beq_iff_eq.1 (all_eq_true.1 hall key hkey)
  have hleft : (((start exampleConfig).run exampleConfig exampleMenu).ports 0).stick &&& 0x01 ≠ 0 := by
    decide
  refine ⟨hup, fun hexact => ?_⟩
  have hshows := hexact.physical 0 .up fun key hkey hheld => by
    rw [hup key hkey] at hheld
    cases hheld
  obtain ⟨key, hkey, hheld⟩ := hshows.1 hleft
  rw [hup key hkey] at hheld
  cases hheld

end Example

end JoyRun

end Bmx.Input
