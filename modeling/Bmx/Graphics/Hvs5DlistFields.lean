import Bmx.Base.Word32
import Bmx.Graphics.Hvs5DlistSpec

/-!
# The fields of a display list

A list is read word by word, as its first words say, and every field at its position. What is read are the parameters of
the planes, unless an image is made so small that its scale has no room in its field.
-/

namespace Bmx.Graphics

open List Nat
open UInt32 (ofNat)

/-! ### Reading the words of a plane -/

/-- The words of a plane by what they are for. -/
structure RawPlane where
  control : UInt32
  position : UInt32
  control2 : UInt32
  scaledSize : Option UInt32
  size : UInt32
  address : UInt32
  pitch : UInt32
  lineBuffer : Option UInt32
  horizontalPpf : Option UInt32
  verticalPpf : Option UInt32
  horizontalTpz : Option (UInt32 × UInt32)
  verticalTpz : Option (UInt32 × UInt32)
  kernels : List UInt32

def next : List UInt32 → Option (UInt32 × List UInt32)
  | [] => none
  | word :: words => some (word, words)

/-- A word that is there in some planes only. -/
def nextIf (present : Bool) (words : List UInt32) : Option (Option UInt32 × List UInt32) :=
  if present then (next words).map fun read => (some read.1, read.2) else some (none, words)

def nextContextIf (present : Bool) (words : List UInt32) : Option (Option UInt32 × List UInt32) := do
  let (word, words) ← nextIf present words
  let (_, words) ← nextIf present words
  return (word, words)

def nextPairIf (present : Bool) (words : List UInt32) : Option (Option (UInt32 × UInt32) × List UInt32) := do
  let (first, words) ← nextIf present words
  let (second, words) ← nextIf present words
  return (first.bind fun first => second.map fun second => (first, second), words)

/-- The scalers that a first word names. -/
def axisKinds (control : UInt32) : HvsScaling × HvsScaling :=
  if bitField control 15 1 = 1 then (.none, .none)
  else
    match bitField control 5 3 with
    | 0 => (.ppf, .ppf)
    | 1 => (.tpz, .ppf)
    | 2 => (.ppf, .tpz)
    | 3 => (.tpz, .tpz)
    | 4 => (.ppf, .none)
    | 5 => (.none, .ppf)
    | 6 => (.none, .tpz)
    | _ => (.tpz, .none)

/-- The words behind the first one, for the scalers of both directions. -/
def readBody (control : UInt32) (horizontal vertical : HvsScaling) (words : List UInt32) : Option RawPlane := do
  let (position, words) ← next words
  let (control2, words) ← next words
  let (scaledSize, words) ← nextIf (horizontal ≠ .none || vertical ≠ .none) words
  let (size, words) ← next words
  let (_, words) ← next words
  let (address, words) ← next words
  let (_, words) ← next words
  let (pitch, words) ← next words
  let (lineBuffer, words) ← nextIf (vertical ≠ .none) words
  let (horizontalPpf, words) ← nextIf (horizontal = .ppf) words
  let (verticalPpf, words) ← nextContextIf (vertical = .ppf) words
  let (horizontalTpz, words) ← nextPairIf (horizontal = .tpz) words
  let (verticalTpz, words) ← nextPairIf (vertical = .tpz) words
  let (_, words) ← nextIf (vertical = .tpz) words
  return { control, position, control2, scaledSize, size, address, pitch, lineBuffer, horizontalPpf, verticalPpf
           horizontalTpz, verticalTpz, kernels := words }

def readPlane : List UInt32 → Option RawPlane
  | [] => none
  | control :: words => readBody control (axisKinds control).1 (axisKinds control).2 words

namespace Hvs5Plane

/-- The words that a plane is written with. -/
def raw (plane : Hvs5Plane) (planeIndex : UInt32) : RawPlane where
  control := plane.control (ofNat (plane.wordCount planeIndex))
  position := plane.destinationY <<< 16 ||| plane.destinationX
  control2 := plane.control2
  scaledSize := if plane.unity then none else some (plane.destinationHeight <<< 16 ||| plane.destinationWidth)
  size := plane.height <<< 16 ||| plane.width
  address := plane.framebufferBusAddress
  pitch := plane.pitch
  lineBuffer := if plane.vertical = .none then none else some (planeIndex * hvsLbmPlaneStrideWords)
  horizontalPpf :=
    if plane.horizontal = .ppf then some (makePpfWord plane.width plane.destinationWidth plane.nearest) else none
  verticalPpf :=
    if plane.vertical = .ppf then some (makePpfWord plane.height plane.destinationHeight plane.nearest) else none
  horizontalTpz :=
    if plane.horizontal = .tpz then
      some (makeTpzWord0 plane.width plane.destinationWidth, makeTpzWord1 plane.width plane.destinationWidth)
    else none
  verticalTpz :=
    if plane.vertical = .tpz then
      some (makeTpzWord0 plane.height plane.destinationHeight, makeTpzWord1 plane.height plane.destinationHeight)
    else none
  kernels := if plane.usesPpf then List.replicate 4 plane.kernelSlot else []

theorem axisKinds_control (plane : Hvs5Plane) (planeIndex : UInt32) :
    axisKinds (plane.control (ofNat (plane.wordCount planeIndex))) = (plane.horizontal, plane.vertical) := by
  have hfields := plane.control_fields planeIndex
  unfold axisKinds
  rw [hfields.unity, hfields.horizontal, scaling, unity]
  cases plane.horizontal <;> cases plane.vertical <;> rfl

theorem readPlane_words (plane : Hvs5Plane) (planeIndex : UInt32) :
    readPlane (plane.words planeIndex) = some (plane.raw planeIndex) := by
  have hkinds := plane.axisKinds_control planeIndex
  rw [words, readPlane, hkinds, raw]
  unfold body imageWords scalingWords unity usesPpf
  cases plane.horizontal <;> cases plane.vertical <;> rfl

end Hvs5Plane

/-! ### The fields of words -/

section Words

variable {source destination : UInt32}

theorem bitField_or (a b : UInt32) (shift width : Nat) :
    bitField (a ||| b) shift width = bitField a shift width ||| bitField b shift width := by
  unfold bitField
  rw [UInt32.toNat_or, or_div_two_pow, or_mod_two_pow]

theorem toNat_shift16 {a : UInt32} (ha : a.toNat < 2 ^ 16) : (a <<< 16).toNat = a.toNat * 2 ^ 16 := by
  have hshift : (16 : UInt32).toNat % 32 = 16 := by decide
  rw [UInt32.toNat_shiftLeft, hshift, shiftLeft_eq, mod_eq_of_lt (by omega)]

theorem toNat_shift8 {a : UInt32} (ha : a.toNat < 2 ^ 24) : (a <<< 8).toNat = a.toNat * 2 ^ 8 := by
  have hshift : (8 : UInt32).toNat % 32 = 8 := by decide
  rw [UInt32.toNat_shiftLeft, hshift, shiftLeft_eq, mod_eq_of_lt (by omega)]

theorem fields_pair {high low : UInt32} {highWidth lowWidth : Nat} (hhighWidth : highWidth ≤ 16)
    (hlowWidth : lowWidth ≤ 16) (hhigh : high.toNat < 2 ^ highWidth) (hlow : low.toNat < 2 ^ lowWidth) :
    bitField (high <<< 16 ||| low) 0 lowWidth = low.toNat ∧
      bitField (high <<< 16 ||| low) 16 highWidth = high.toNat := by
  have hlowPow : 2 ^ lowWidth ≤ 2 ^ 16 := Nat.pow_le_pow_right (by decide) hlowWidth
  have hhighPow : 2 ^ highWidth ≤ 2 ^ 16 := Nat.pow_le_pow_right (by decide) hhighWidth
  have hshift : (high <<< 16).toNat = high.toNat * 2 ^ 16 := toNat_shift16 (by omega)
  have hsplit : 2 ^ 16 = 2 ^ (16 - lowWidth) * 2 ^ lowWidth := by
    rw [← Nat.pow_add]
    congr 1
    omega
  constructor
  · have hzero : bitField (high <<< 16) 0 lowWidth = 0 := by
      rw [bitField, hshift, hsplit, Nat.pow_zero, Nat.div_one, ← Nat.mul_assoc, mul_mod_left]
    rw [bitField_or, hzero, zero_or, bitField, Nat.pow_zero, Nat.div_one, mod_eq_of_lt hlow]
  · have hzero : bitField low 16 highWidth = 0 := by
      rw [bitField, div_eq_of_lt (by omega), zero_mod]
    rw [bitField_or, hzero, or_zero, bitField, hshift, Nat.mul_div_cancel _ (by decide), mod_eq_of_lt hhigh]

/-- The scale of two sizes. -/
def scaleOf (source destination : Nat) : Nat := source * 2 ^ 16 / destination

/-- The scale and the phase of a PPF word, with its rounding. -/
def ppfScale (source destination : Nat) : Nat := scaleOf source destination / 2 * 2

def ppfPhase (source destination : Nat) : Int :=
  -32 + (((source * 2 ^ 16 - destination * ppfScale source destination) / 2 ^ 10 / 2 : Nat) : Int)

/-- A number of seven bits with a sign. -/
def signed7 (value : Nat) : Int := if value < 64 then value else value - 128

/-- Sizes that planes may have. -/
structure Sizes (source destination : UInt32) : Prop where
  sourceFits : source.toNat < 2 ^ 13
  destinationFits : destination.toNat < 2 ^ 13
  pos : 0 < destination.toNat

theorem toNat_even (a : UInt32) : (a &&& ~~~1).toNat = a.toNat / 2 * 2 := by
  have heven := and_not32_low a.toNat 1 (by decide) a.toNat_lt
  exact heven

theorem toNat_scale (h : Sizes source destination) :
    (source <<< 16).toNat = source.toNat * 2 ^ 16 ∧
      (source <<< 16 / destination).toNat = scaleOf source.toNat destination.toNat := by
  have hsource := h.sourceFits
  have hshift : (source <<< 16).toNat = source.toNat * 2 ^ 16 := toNat_shift16 (by omega)
  exact ⟨hshift, by rw [UInt32.toNat_div, hshift, scaleOf]⟩

theorem ppfError_le (h : 0 < destination.toNat) :
    destination.toNat * ppfScale source.toNat destination.toNat ≤ source.toNat * 2 ^ 16 ∧
      source.toNat * 2 ^ 16 - destination.toNat * ppfScale source.toNat destination.toNat < 2 * destination.toNat := by
  have hdiv := div_add_mod (source.toNat * 2 ^ 16) destination.toNat
  have hmod := mod_lt (source.toNat * 2 ^ 16) h
  have heven := div_add_mod (scaleOf source.toNat destination.toNat) 2
  have hsum : destination.toNat * scaleOf source.toNat destination.toNat =
      destination.toNat * ppfScale source.toNat destination.toNat +
        destination.toNat * (scaleOf source.toNat destination.toNat % 2) := by
    rw [← Nat.mul_add, ppfScale, Nat.mul_comm _ 2, heven]
  have hlast : destination.toNat * (scaleOf source.toNat destination.toNat % 2) ≤ destination.toNat * 1 :=
    Nat.mul_le_mul_left _ (by omega)
  have hscale : destination.toNat * scaleOf source.toNat destination.toNat =
      destination.toNat * (source.toNat * 2 ^ 16 / destination.toNat) := rfl
  omega

def evenScale (source destination : UInt32) : UInt32 := source <<< 16 / destination &&& ~~~1

theorem toNat_evenScale (h : Sizes source destination) :
    (evenScale source destination).toNat = ppfScale source.toNat destination.toNat := by
  rw [evenScale, toNat_even, (toNat_scale h).2, ppfScale]

/-- The error of the rounded scale as the number with a sign that `MakePpfWord` shifts. -/
theorem toInt_ppfError (h : Sizes source destination) :
    (source <<< 16 - destination * evenScale source destination).toInt32.toInt =
      ((source.toNat * 2 ^ 16 - destination.toNat * ppfScale source.toNat destination.toNat : Nat) : Int) := by
  obtain ⟨hle, hlt⟩ := @ppfError_le source destination h.pos
  have hsource := h.sourceFits
  have hproduct : (destination * evenScale source destination).toNat =
      destination.toNat * ppfScale source.toNat destination.toNat := by
    rw [UInt32.toNat_mul, toNat_evenScale h, mod_eq_of_lt (by omega)]
  have hordered : destination * evenScale source destination ≤ source <<< 16 := by
    rw [UInt32.le_iff_toNat_le, hproduct, (toNat_scale h).1]
    exact hle
  have herror : (source <<< 16 - destination * evenScale source destination).toNat =
      source.toNat * 2 ^ 16 - destination.toNat * ppfScale source.toNat destination.toNat := by
    rw [UInt32.toNat_sub_of_le _ _ hordered, hproduct, (toNat_scale h).1]
  have hsmall : 2 * (source <<< 16 - destination * evenScale source destination).toNat < 2 ^ 32 := by
    omega
  rw [← herror]
  exact BitVec.toInt_eq_toNat_of_lt hsmall

theorem makePpfWord_eq (h : Sizes source destination) (nearest : Bool) :
    makePpfWord source destination nearest =
      (if nearest then hvsPpfNoInterpolation else 0) ||| hvsPpfAgc ||| (evenScale source destination &&& 0x1ffff) <<< 8 |||
        ofNat (ppfPhase source.toNat destination.toNat % 2 ^ 7).toNat := by
  obtain ⟨-, hlt⟩ := @ppfError_le source destination h.pos
  have hdestination := h.destinationFits
  have hphase : (source <<< 16 - destination * evenScale source destination).toInt32.toInt >>>
      (16 - hvsPpfPhaseBits) >>> (1 : Nat) - Int.ofNat (1 <<< (hvsPpfPhaseBits - 1)) =
        ppfPhase source.toNat destination.toNat := by
    have hbits : 16 - hvsPpfPhaseBits = 10 := rfl
    have hstart : Int.ofNat (1 <<< (hvsPpfPhaseBits - 1)) = 32 := rfl
    rw [toInt_ppfError h, hbits, hstart, ppfPhase, Int.shiftRight_eq_div_pow, Int.shiftRight_eq_div_pow]
    omega
  have hsmall : ¬ ppfPhase source.toNat destination.toNat ≥ Int.ofNat (1 <<< hvsPpfPhaseBits) := by
    have hbound : Int.ofNat (1 <<< hvsPpfPhaseBits) = 64 := rfl
    rw [hbound, ppfPhase]
    omega
  unfold makePpfWord
  simp only
  rw [← evenScale, hphase, if_neg hsmall]
  rfl

theorem toNat_mask (a : UInt32) (bits : Nat) (hbits : bits < 32) :
    (a &&& ofNat (2 ^ bits - 1)).toNat = a.toNat % 2 ^ bits := by
  have hpow : 2 ^ bits ≤ 2 ^ 31 := Nat.pow_le_pow_right (by decide) (by omega)
  rw [UInt32.toNat_and, UInt32.toNat_ofNat', mod_eq_of_lt (by omega), and_two_pow_sub_one_eq_mod]

theorem ppfScale_lt (h : Sizes source destination) (hppf : 2 * source.toNat ≤ 3 * destination.toNat) :
    ppfScale source.toNat destination.toNat < 2 ^ 17 := by
  have hscale : scaleOf source.toNat destination.toNat < 2 ^ 17 := by
    have hpos := h.pos
    rw [scaleOf, Nat.div_lt_iff_lt_mul hpos]
    omega
  rw [ppfScale]
  omega

theorem ppf_fields (h : Sizes source destination) (hppf : 2 * source.toNat ≤ 3 * destination.toNat) (nearest : Bool) :
    bitField (makePpfWord source destination nearest) 31 1 = nearest.toNat ∧
      bitField (makePpfWord source destination nearest) 8 17 = ppfScale source.toNat destination.toNat ∧
      signed7 (bitField (makePpfWord source destination nearest) 0 7) = ppfPhase source.toNat destination.toNat := by
  obtain ⟨-, hlt⟩ := @ppfError_le source destination h.pos
  have hdestination := h.destinationFits
  have hscale := ppfScale_lt h hppf
  have hmasked : (evenScale source destination &&& 0x1ffff).toNat = ppfScale source.toNat destination.toNat := by
    have hmask := toNat_mask (evenScale source destination) 17 (by decide)
    rw [toNat_evenScale h, mod_eq_of_lt hscale] at hmask
    exact hmask
  have hshift : ((evenScale source destination &&& 0x1ffff) <<< 8).toNat =
      ppfScale source.toNat destination.toNat * 2 ^ 8 := by
    rw [toNat_shift8 (by omega), hmasked]
  have hphase : (ppfPhase source.toNat destination.toNat % 2 ^ 7).toNat < 2 ^ 7 ∧
      signed7 (ppfPhase source.toNat destination.toNat % 2 ^ 7).toNat = ppfPhase source.toNat destination.toNat := by
    unfold signed7 ppfPhase
    omega
  have hlow : (ofNat (ppfPhase source.toNat destination.toNat % 2 ^ 7).toNat).toNat =
      (ppfPhase source.toNat destination.toNat % 2 ^ 7).toNat := by
    rw [UInt32.toNat_ofNat', mod_eq_of_lt (by omega)]
  have hflags : ∀ nearest : Bool,
      let flags := (if nearest then hvsPpfNoInterpolation else 0) ||| hvsPpfAgc
      bitField flags 31 1 = nearest.toNat ∧ bitField flags 8 17 = 0 ∧ bitField flags 0 7 = 0 := by
    decide
  obtain ⟨hflag, hflagScale, hflagPhase⟩ := hflags nearest
  rw [makePpfWord_eq h]
  refine ⟨?_, ?_, ?_⟩
  · have hmiddle : bitField ((evenScale source destination &&& 0x1ffff) <<< 8) 31 1 = 0 := by
      rw [bitField, hshift, div_eq_of_lt (by omega), zero_mod]
    have hend : bitField (ofNat (ppfPhase source.toNat destination.toNat % 2 ^ 7).toNat) 31 1 = 0 := by
      rw [bitField, hlow, div_eq_of_lt (by omega), zero_mod]
    rw [bitField_or, bitField_or, hflag, hmiddle, hend, or_zero, or_zero]
  · have hmiddle : bitField ((evenScale source destination &&& 0x1ffff) <<< 8) 8 17 =
        ppfScale source.toNat destination.toNat := by
      rw [bitField, hshift, Nat.mul_div_cancel _ (by decide), mod_eq_of_lt hscale]
    have hend : bitField (ofNat (ppfPhase source.toNat destination.toNat % 2 ^ 7).toNat) 8 17 = 0 := by
      rw [bitField, hlow, div_eq_of_lt (by omega), zero_mod]
    rw [bitField_or, bitField_or, hflagScale, hmiddle, hend, zero_or, or_zero]
  · have hmiddle : bitField ((evenScale source destination &&& 0x1ffff) <<< 8) 0 7 = 0 := by
      rw [bitField, hshift]
      omega
    have hend : bitField (ofNat (ppfPhase source.toNat destination.toNat % 2 ^ 7).toNat) 0 7 =
        (ppfPhase source.toNat destination.toNat % 2 ^ 7).toNat := by
      rw [bitField, hlow, Nat.pow_zero, Nat.div_one, mod_eq_of_lt hphase.1]
    rw [bitField_or, bitField_or, hflagPhase, hmiddle, hend, zero_or, zero_or, hphase.2]

/-- The reciprocal of a scale, as TPZ words hold it. -/
def tpzReciprocal (source destination : Nat) : Nat := (2 ^ 32 - 1) / scaleOf source destination

/-- The fields of TPZ words: the scale has room for images that become smaller by less than 32. -/
theorem tpz_fields (h : Sizes source destination) (htpz : 3 * destination.toNat < 2 * source.toNat) :
    (bitField (makeTpzWord0 source destination) 8 21 = scaleOf source.toNat destination.toNat ↔
      source.toNat < 32 * destination.toNat) ∧
      bitField (makeTpzWord1 source destination) 0 16 = tpzReciprocal source.toNat destination.toNat := by
  have hless : destination < source := by
    rw [UInt32.lt_iff_toNat_lt]
    omega
  have hscale : (tpzScale source destination).toNat = scaleOf source.toNat destination.toNat := by
    rw [tpzScale, if_pos hless, (toNat_scale h).2]
  constructor
  · have hmasked : (tpzScale source destination &&& 0x1fffff).toNat =
        scaleOf source.toNat destination.toNat % 2 ^ 21 := by
      have hmask := toNat_mask (tpzScale source destination) 21 (by decide)
      rw [hscale] at hmask
      exact hmask
    have hfield : bitField (makeTpzWord0 source destination) 8 21 = scaleOf source.toNat destination.toNat % 2 ^ 21 := by
      rw [bitField, makeTpzWord0, toNat_shift8 (by omega), hmasked, Nat.mul_div_cancel _ (by decide), mod_mod]
    have hroom : scaleOf source.toNat destination.toNat < 2 ^ 21 ↔ source.toNat < 32 * destination.toNat := by
      rw [scaleOf, Nat.div_lt_iff_lt_mul h.pos]
      omega
    rw [hfield, ← hroom]
    constructor
    · intro hsame
      rw [← hsame]
      exact mod_lt _ (by decide)
    · exact fun hsmall => mod_eq_of_lt hsmall
  · have hlarge : 2 ^ 16 ≤ scaleOf source.toNat destination.toNat := by
      rw [scaleOf, Nat.le_div_iff_mul_le h.pos]
      omega
    have hsmall : tpzReciprocal source.toNat destination.toNat < 2 ^ 16 := by
      rw [tpzReciprocal, Nat.div_lt_iff_lt_mul (by omega)]
      omega
    have hmasked := toNat_mask ((~~~0 : UInt32) / tpzScale source destination) 16 (by decide)
    have hones : (~~~0 : UInt32).toNat = 2 ^ 32 - 1 := by decide
    rw [UInt32.toNat_div, hones, hscale] at hmasked
    have hword : (makeTpzWord1 source destination).toNat = tpzReciprocal source.toNat destination.toNat % 2 ^ 16 := by
      rw [makeTpzWord1, if_pos hless]
      exact hmasked
    rw [bitField, hword, Nat.pow_zero, Nat.div_one, mod_mod, mod_eq_of_lt hsmall]

end Words

/-! ### The parameters of a plane -/

inductive AxisFields where
  | unscaled
  | ppf (nearest : Bool) (scale : Nat) (phase : Int)
  | tpz (scale reciprocal : Nat)
  deriving DecidableEq, Repr

structure PlaneFields where
  x : Nat
  y : Nat
  width : Nat
  height : Nat
  destinationWidth : Nat
  destinationHeight : Nat
  address : Nat
  pitch : Nat
  fixedAlpha : Bool
  alpha : Nat
  pixelFormat : Nat
  pixelOrder : Nat
  lineBuffer : Option Nat
  horizontal : AxisFields
  vertical : AxisFields
  kernels : List Nat
  deriving DecidableEq

/-- The scaling that the words of one direction hold. -/
def axisOf : Option UInt32 → Option (UInt32 × UInt32) → AxisFields
  | some word, _ => .ppf (bitField word 31 1 = 1) (bitField word 8 17) (signed7 (bitField word 0 7))
  | none, some (word0, word1) => .tpz (bitField word0 8 21) (bitField word1 0 16)
  | none, none => .unscaled

def RawPlane.fields (raw : RawPlane) : PlaneFields where
  x := bitField raw.position 0 14
  y := bitField raw.position 16 12
  width := bitField raw.size 0 13
  height := bitField raw.size 16 13
  destinationWidth := bitField (raw.scaledSize.getD raw.size) 0 13
  destinationHeight := bitField (raw.scaledSize.getD raw.size) 16 13
  address := raw.address.toNat
  pitch := bitField raw.pitch 0 16
  fixedAlpha := bitField raw.control2 30 1 = 1
  alpha := bitField raw.control2 4 12
  pixelFormat := bitField raw.control 0 4
  pixelOrder := bitField raw.control 13 2
  lineBuffer := raw.lineBuffer.map UInt32.toNat
  horizontal := axisOf raw.horizontalPpf raw.horizontalTpz
  vertical := axisOf raw.verticalPpf raw.verticalTpz
  kernels := raw.kernels.map UInt32.toNat

def axisFields (nearest : Bool) (source destination : Nat) : AxisFields :=
  if source = destination then .unscaled
  else if 2 * source ≤ 3 * destination then .ppf nearest (ppfScale source destination) (ppfPhase source destination)
  else .tpz (scaleOf source destination) (tpzReciprocal source destination)

namespace Hvs5Plane

def fields (plane : Hvs5Plane) (planeIndex : Nat) : PlaneFields where
  x := plane.destinationX.toNat
  y := plane.destinationY.toNat
  width := plane.width.toNat
  height := plane.height.toNat
  destinationWidth := plane.destinationWidth.toNat
  destinationHeight := plane.destinationHeight.toNat
  address := plane.framebufferBusAddress.toNat
  pitch := plane.pitch.toNat
  fixedAlpha := plane.format = .rgb565
  alpha := 0xfff
  pixelFormat := plane.pixelFormat.toNat
  pixelOrder := 2
  lineBuffer := if plane.vertical = .none then none else some (planeIndex * 4096)
  horizontal := axisFields plane.nearest plane.width.toNat plane.destinationWidth.toNat
  vertical := axisFields plane.nearest plane.height.toNat plane.destinationHeight.toNat
  kernels := if plane.usesPpf then List.replicate 4 plane.kernelSlot.toNat else []

/-- An image that becomes smaller by less than 32. -/
def ScalesFit (plane : Hvs5Plane) : Prop :=
  plane.width.toNat < 32 * plane.destinationWidth.toNat ∧ plane.height.toNat < 32 * plane.destinationHeight.toNat

instance (plane : Hvs5Plane) : Decidable plane.ScalesFit := inferInstanceAs (Decidable (_ ∧ _))

/-- The bounds that the checks of a plane give its numbers. -/
structure Bounded (plane : Hvs5Plane) : Prop where
  x : plane.destinationX.toNat < 2 ^ 14
  y : plane.destinationY.toNat < 2 ^ 12
  horizontal : Sizes plane.width plane.destinationWidth
  vertical : Sizes plane.height plane.destinationHeight
  pitch : plane.pitch.toNat < 2 ^ 16

theorem accepted_bounded {plane : Hvs5Plane} {displayWidth displayHeight : UInt32}
    (h : plane.accepted displayWidth displayHeight) : plane.Bounded := by
  unfold accepted at h
  simp only [Bool.not_eq_true', Bool.or_eq_false_iff, decide_eq_false_iff_not, and_assoc] at h
  obtain ⟨-, -, -, hwidth, -, hheight, hx, hy, hdestinationWidth0, hdestinationWidth, hdestinationHeight0,
    hdestinationHeight, -, -, -, -, -, -, -, -, hpitch, -⟩ := h
  have hpos : ∀ size : UInt32, ¬ size = 0 → 0 < size.toNat := by
    intro size hsize
    exact Nat.pos_of_ne_zero fun hzero => hsize (UInt32.toNat_inj.1 hzero)
  have hdimension : ∀ size : UInt32, ¬ size > hvs5MaximumDimension → size.toNat < 2 ^ 13 := by
    intro size hsize
    exact lt_succ_of_le (Nat.not_lt.1 hsize)
  exact {
    x := lt_succ_of_le (Nat.not_lt.1 hx)
    y := lt_succ_of_le (Nat.not_lt.1 hy)
    horizontal := ⟨hdimension _ hwidth, hdimension _ hdestinationWidth, hpos _ hdestinationWidth0⟩
    vertical := ⟨hdimension _ hheight, hdimension _ hdestinationHeight, hpos _ hdestinationHeight0⟩
    pitch := lt_succ_of_le (Nat.not_lt.1 hpitch) }

end Hvs5Plane

theorem getScaling_eq {source destination : UInt32} (h : Sizes source destination) :
    getScaling source destination =
      if source.toNat = destination.toNat then .none
      else if 2 * source.toNat ≤ 3 * destination.toNat then .ppf else .tpz := by
  have hsource := h.sourceFits
  have hdestination := h.destinationFits
  have hthree : (3 * destination).toNat = 3 * destination.toNat := by
    exact mod_eq_of_lt (by change 3 * destination.toNat < 2 ^ 32; omega)
  have htwo : (2 * source).toNat = 2 * source.toNat := by
    exact mod_eq_of_lt (by change 2 * source.toNat < 2 ^ 32; omega)
  unfold getScaling
  simp only [ge_iff_le, UInt32.le_iff_toNat_le, hthree, htwo, UInt32.toNat_inj]

theorem axisOf_words {source destination : UInt32} (h : Sizes source destination) (nearest : Bool) :
    axisOf (if getScaling source destination = .ppf then some (makePpfWord source destination nearest) else none)
        (if getScaling source destination = .tpz then
          some (makeTpzWord0 source destination, makeTpzWord1 source destination) else none) =
      axisFields nearest source.toNat destination.toNat ↔ source.toNat < 32 * destination.toNat := by
  have hpos := h.pos
  rw [getScaling_eq h]
  unfold axisFields
  by_cases hsame : source.toNat = destination.toNat
  · rw [if_pos hsame, if_pos hsame]
    refine iff_of_true rfl (by omega)
  · rw [if_neg hsame, if_neg hsame]
    by_cases hppf : 2 * source.toNat ≤ 3 * destination.toNat
    · obtain ⟨hnearest, hscale, hphase⟩ := ppf_fields h hppf nearest
      rw [if_pos hppf, if_pos hppf, if_pos rfl]
      refine iff_of_true ?_ (by omega)
      rw [axisOf, hnearest, hscale, hphase]
      cases nearest <;> rfl
    · obtain ⟨hscale, hreciprocal⟩ := tpz_fields h (by omega)
      rw [if_neg hppf, if_neg hppf, if_neg (by decide), if_pos rfl, axisOf, hreciprocal]
      rw [← hscale, AxisFields.tpz.injEq]
      exact and_iff_left rfl

namespace Hvs5Plane

theorem scaledSize_getD (plane : Hvs5Plane) (planeIndex : UInt32) :
    (plane.raw planeIndex).scaledSize.getD (plane.raw planeIndex).size =
      plane.destinationHeight <<< 16 ||| plane.destinationWidth := by
  have hscaling : ∀ source destination : UInt32, getScaling source destination = .none → source = destination := by
    intro source destination hnone
    by_contra hne
    rw [getScaling, if_neg hne] at hnone
    split at hnone <;> cases hnone
  unfold raw
  split
  next hunity =>
    rw [unity, Bool.and_eq_true, decide_eq_true_eq, decide_eq_true_eq] at hunity
    rw [hscaling _ _ hunity.1, hscaling _ _ hunity.2]
    rfl
  next => rfl

theorem control2_fields (plane : Hvs5Plane) :
    decide (bitField plane.control2 30 1 = 1) = decide (plane.format = .rgb565) ∧
      bitField plane.control2 4 12 = 0xfff := by
  unfold control2
  cases plane.format <;> decide

theorem lineBuffer_raw (plane : Hvs5Plane) {planeIndex : Nat} (hindex : planeIndex < 4) :
    (plane.raw (ofNat planeIndex)).lineBuffer.map UInt32.toNat =
      if plane.vertical = .none then none else some (planeIndex * 4096) := by
  have hproduct : ∀ index < 4, (ofNat index * hvsLbmPlaneStrideWords).toNat = index * 4096 := by decide
  unfold raw
  simp only
  split
  next => rfl
  next => rw [Option.map_some, hproduct planeIndex hindex]

theorem kernels_raw (plane : Hvs5Plane) (planeIndex : UInt32) :
    (plane.raw planeIndex).kernels.map UInt32.toNat =
      if plane.usesPpf then List.replicate 4 plane.kernelSlot.toNat else [] := by
  unfold raw
  simp only
  split
  next => exact map_replicate
  next => rfl

theorem fields_raw_eq {plane : Hvs5Plane} (h : plane.Bounded) {planeIndex : Nat} (hindex : planeIndex < 4) :
    (plane.raw (ofNat planeIndex)).fields =
      { plane.fields planeIndex with
        horizontal := axisOf (plane.raw (ofNat planeIndex)).horizontalPpf
          (plane.raw (ofNat planeIndex)).horizontalTpz
        vertical := axisOf (plane.raw (ofNat planeIndex)).verticalPpf
          (plane.raw (ofNat planeIndex)).verticalTpz } := by
  obtain ⟨hx, hy⟩ := fields_pair (by decide : 12 ≤ 16) (by decide : 14 ≤ 16) h.y h.x
  obtain ⟨hwidth, hheight⟩ := fields_pair (by decide : 13 ≤ 16) (by decide : 13 ≤ 16) h.vertical.sourceFits
    h.horizontal.sourceFits
  obtain ⟨hscaledWidth, hscaledHeight⟩ := fields_pair (by decide : 13 ≤ 16) (by decide : 13 ≤ 16)
    h.vertical.destinationFits h.horizontal.destinationFits
  obtain ⟨halphaMode, halpha⟩ := plane.control2_fields
  have hcontrol := plane.control_fields (ofNat planeIndex)
  have hformat : bitField (plane.raw (ofNat planeIndex)).control 0 4 = plane.pixelFormat.toNat := by
    refine hcontrol.format.trans ?_
    unfold argb pixelFormat
    simp only [decide_eq_true_eq]
    split <;> rfl
  have hpitch : bitField plane.pitch 0 16 = plane.pitch.toNat := by
    rw [bitField, Nat.pow_zero, Nat.div_one, mod_eq_of_lt h.pitch]
  unfold RawPlane.fields fields
  rw [plane.scaledSize_getD, plane.lineBuffer_raw hindex, plane.kernels_raw, hscaledWidth, hscaledHeight, hformat]
  simp only [PlaneFields.mk.injEq, true_and, and_true]
  exact ⟨hx, hy, hwidth, hheight, rfl, hpitch, halphaMode, halpha, hcontrol.order⟩

theorem fields_raw {plane : Hvs5Plane} (h : plane.Bounded) {planeIndex : Nat} (hindex : planeIndex < 4) :
    (plane.raw (ofNat planeIndex)).fields = plane.fields planeIndex ↔ plane.ScalesFit := by
  have hhorizontal := axisOf_words h.horizontal plane.nearest
  have hvertical := axisOf_words h.vertical plane.nearest
  rw [fields_raw_eq h hindex, ScalesFit, ← hhorizontal, ← hvertical]
  unfold fields
  simp only [PlaneFields.mk.injEq, true_and, and_true]
  rfl

end Hvs5Plane

/-! ### Reading a list -/

/-- The planes of a list, up to an end word that is its last word. -/
def readDlist (words : List UInt32) : Option (List PlaneFields) :=
  match words with
  | [] => none
  | control :: rest =>
    if control &&& hvsCtl0End ≠ 0 then if rest = [] then some [] else none
    else if planeWordsOf control = 0 then none
    else do
      let raw ← readPlane ((control :: rest).take (planeWordsOf control))
      let planes ← readDlist ((control :: rest).drop (planeWordsOf control))
      return raw.fields :: planes
termination_by words.length
decreasing_by
  rw [length_drop, length_cons]
  omega

theorem readDlist_end : readDlist [hvsCtl0End] = some [] := by
  rw [readDlist, if_pos (by decide), if_pos rfl]

theorem readDlist_plane (plane : Hvs5Plane) (planeIndex : UInt32) (rest : List UInt32) :
    readDlist (plane.words planeIndex ++ rest) =
      (readDlist rest).map fun planes => (plane.raw planeIndex).fields :: planes := by
  have hfields := plane.control_fields planeIndex
  have hsize : planeWordsOf (plane.control (ofNat (plane.wordCount planeIndex))) =
      (plane.words planeIndex).length := hfields.size
  have hread := plane.readPlane_words planeIndex
  have hne : ¬ planeWordsOf (plane.control (ofNat (plane.wordCount planeIndex))) = 0 := by
    rw [hsize]
    exact succ_ne_zero _
  have hcons : plane.words planeIndex ++ rest =
      plane.control (ofNat (plane.wordCount planeIndex)) :: (plane.body planeIndex ++ rest) := rfl
  rw [hcons, readDlist, if_neg (not_not.2 hfields.noEnd), if_neg hne, ← hcons, hsize, take_left, drop_left, hread]
  cases readDlist rest <;> rfl

theorem readDlist_planes (planes : List (Hvs5Plane × Nat)) :
    readDlist (planesWords planes ++ [hvsCtl0End]) =
      some (planes.map fun indexed => (indexed.1.raw (ofNat indexed.2)).fields) := by
  induction planes with
  | nil => exact readDlist_end
  | cons indexed planes ih =>
    have hsplit : planesWords (indexed :: planes) ++ [hvsCtl0End] =
        indexed.1.words (ofNat indexed.2) ++ (planesWords planes ++ [hvsCtl0End]) := by
      rw [planesWords, flatMap_cons, append_assoc]
      rfl
    rw [hsplit, readDlist_plane, ih]
    rfl

/-- A list holds the parameters of the planes it is built of, and it ends with its one end word. -/
def FieldsExact (planes : List Hvs5Plane) (capacity : Nat) (words : List UInt32) : Prop :=
  readDlist words = some (planes.zipIdx.map fun indexed => indexed.1.fields indexed.2) ∧ words.length ≤ capacity

/-- The fields of a list that was built are exact, unless a plane becomes smaller by 32 or more. -/
theorem dlist_fields_exact_iff (planes : List Hvs5Plane) (displayWidth displayHeight : UInt32) (capacity : Nat)
    (s : DlistBuild) (h : buildHvs5Dlist planes displayWidth displayHeight capacity = some s) :
    FieldsExact planes capacity s.words ↔ ∀ plane ∈ planes, plane.ScalesFit := by
  obtain ⟨hplanes, -, haccepted, hwords, hlength⟩ := buildHvs5Dlist_some h
  have hindexed : ∀ indexed ∈ planes.zipIdx,
      (indexed.1.raw (ofNat indexed.2)).fields = indexed.1.fields indexed.2 ↔ indexed.1.ScalesFit := by
    intro indexed hin
    have hmem := mem_zipIdx hin
    have hindex : indexed.2 < 4 := by
      have hbound : hvs5MaximumPlanes = 4 := rfl
      omega
    refine Hvs5Plane.fields_raw (Hvs5Plane.accepted_bounded (haccepted indexed.1 ?_)) hindex
    rw [hmem.2.2]
    exact getElem_mem _
  unfold FieldsExact
  rw [hwords, readDlist_planes, ← hwords, Option.some_inj, map_inj_left, and_iff_left hlength]
  constructor
  · intro hsame plane hin
    rw [← zipIdx_map_fst 0 planes] at hin
    obtain ⟨indexed, hmem, rfl⟩ := mem_map.1 hin
    exact (hindexed indexed hmem).1 (hsame indexed hmem)
  · intro hfit indexed hin
    have hmem : indexed.1 ∈ planes := by
      rw [← zipIdx_map_fst 0 planes]
      exact mem_map_of_mem hin
    exact (hindexed indexed hin).2 (hfit indexed.1 hmem)

/-- A plane of 320 columns on so many columns of the display. -/
def narrowPlane (destinationWidth : UInt32) : Hvs5Plane :=
  ⟨4096, 640, 320, 200, .rgb565, .nearest, 0, 0, destinationWidth, 400⟩

def narrowDlist (destinationWidth : UInt32) : DlistBuild :=
  (buildHvs5Dlist [narrowPlane destinationWidth] 320 400 64).getD {}

/-- A plane that becomes smaller by 20 in one direction and larger in the other one. -/
theorem narrow_fields_exact : FieldsExact [narrowPlane 16] 64 (narrowDlist 16).words := by
  have hbuild : buildHvs5Dlist [narrowPlane 16] 320 400 64 = some (narrowDlist 16) := by decide
  exact (dlist_fields_exact_iff [narrowPlane 16] 320 400 64 (narrowDlist 16) hbuild).2 (by decide)

/-- The scale of a plane that becomes smaller by 40 is cut to its field. -/
theorem narrow_scale_cut :
    buildHvs5Dlist [narrowPlane 8] 320 400 64 = some (narrowDlist 8) ∧
      ¬ FieldsExact [narrowPlane 8] 64 (narrowDlist 8).words ∧
      bitField (makeTpzWord0 320 8) 8 21 = 8 * 2 ^ 16 ∧ scaleOf 320 8 = 40 * 2 ^ 16 := by
  have hbuild : buildHvs5Dlist [narrowPlane 8] 320 400 64 = some (narrowDlist 8) := by decide
  refine ⟨hbuild, ?_, by decide, by decide⟩
  rintro ⟨hread, -⟩
  obtain ⟨-, -, -, hwords, -⟩ := buildHvs5Dlist_some hbuild
  rw [hwords, readDlist_planes] at hread
  revert hread
  decide

end Bmx.Graphics
