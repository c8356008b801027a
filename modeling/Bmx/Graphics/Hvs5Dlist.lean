import Bmx.Base.Instances

/-!
# Display lists of the HVS5

A display list has the words of each plane and then an end word. The first word of a plane tells how many words the
plane has and how it is scaled; a plane that is not scaled has no words for it.
-/

namespace Bmx.Graphics

/-! ### The words -/

def hvsCtl0End : UInt32 := (1 : UInt32) <<< (31 : UInt32)
def hvsCtl0Valid : UInt32 := (1 : UInt32) <<< (30 : UInt32)
def hvsCtl0SizeShift : UInt32 := 24
def hvsCtl0SizeMask : UInt32 := 0x3f
def hvsCtl0OrderXrgb : UInt32 := (2 : UInt32) <<< (13 : UInt32)
def hvsCtl0OrderArgb : UInt32 := (2 : UInt32) <<< (13 : UInt32)
def hvs5Ctl0Unity : UInt32 := (1 : UInt32) <<< (15 : UInt32)
def hvs5Ctl0AlphaExpand : UInt32 := (1 : UInt32) <<< (12 : UInt32)
def hvs5Ctl0RgbExpand : UInt32 := (1 : UInt32) <<< (11 : UInt32)
def hvsPixelFormatRgb565 : UInt32 := 4
def hvsPixelFormatRgba8888 : UInt32 := 7
def hvsCtl0ScaleShift0 : UInt32 := 5
def hvsCtl0ScaleShift1 : UInt32 := 8
def hvs5Ctl2AlphaModeFixed : UInt32 := (1 : UInt32) <<< (30 : UInt32)
def hvs5Ctl2OpaqueAlpha : UInt32 := (0xfff : UInt32) <<< (4 : UInt32)
def hvsContextPlaceholder : UInt32 := 0xc0c0c0c0
def hvs5MaximumX : UInt32 := 0x3fff
def hvs5MaximumY : UInt32 := 0x0fff
def hvs5MaximumDimension : UInt32 := 0x1fff
def hvsMaximumRasterPitch : UInt32 := 0xffff
def hvsPpfNoInterpolation : UInt32 := (1 : UInt32) <<< (31 : UInt32)
def hvsPpfAgc : UInt32 := (1 : UInt32) <<< (30 : UInt32)
def hvsPpfPhaseBits : Nat := 6
def hvsLbmPlaneStrideWords : UInt32 := 4096
def hvs5Rgb565UnityPlaneWords : UInt32 := 8
def hvs5Rgb565UnityDlistWords : Nat := 9
def hvs5MaximumPlanes : Nat := 4
def hvs5MaximumArmDlistWords : Nat := 64
def hvs5MitchellKernelSlot : UInt32 := 3024
def hvs5NearestKernelSlot : UInt32 := 3040

/-! ### Planes -/

inductive Hvs5PixelFormat where
  | rgb565
  | argb8888
  | other
  deriving DecidableEq, Repr

inductive Hvs5ScaleFilter where
  | nearest
  | mitchell
  | other
  deriving DecidableEq, Repr

structure Hvs5Plane where
  framebufferBusAddress : UInt32
  pitch : UInt32
  width : UInt32
  height : UInt32
  format : Hvs5PixelFormat
  filter : Hvs5ScaleFilter
  destinationX : UInt32
  destinationY : UInt32
  destinationWidth : UInt32
  destinationHeight : UInt32

structure Hvs5FilterKernelUsage where
  nearest : Bool := false
  mitchell : Bool := false
  deriving DecidableEq, Repr

inductive HvsScaling where
  | none
  | ppf
  | tpz
  deriving DecidableEq

def fitsDisplay (start size displaySize : UInt32) : Bool := start ≤ displaySize && size ≤ displaySize - start

def getScaling (source destination : UInt32) : HvsScaling :=
  if source = destination then .none else if 3 * destination ≥ 2 * source then .ppf else .tpz

def makeScaleField : HvsScaling → HvsScaling → UInt32
  | .ppf, .ppf => 0
  | .tpz, .ppf => 1
  | .ppf, .tpz => 2
  | .tpz, .tpz => 3
  | .ppf, .none => 4
  | .none, .ppf => 5
  | .none, .tpz => 6
  | .tpz, .none => 7
  | .none, .none => 0

def makePpfWord (source destination : UInt32) (nearest : Bool) : UInt32 :=
  let sourceFixed := source <<< 16
  let scale := sourceFixed / destination &&& ~~~1
  let precisionError : Int := (sourceFixed - destination * scale).toInt32.toInt >>> (16 - hvsPpfPhaseBits)
  let phase : Int := precisionError >>> (1 : Nat) - Int.ofNat (1 <<< (hvsPpfPhaseBits - 1))
  let phase := if phase ≥ Int.ofNat (1 <<< hvsPpfPhaseBits) then Int.ofNat (1 <<< hvsPpfPhaseBits) - 1 else phase
  -- the mask of `phase` on a two's complement number
  let phase := phase % Int.ofNat (1 <<< (hvsPpfPhaseBits + 1))
  (if nearest then hvsPpfNoInterpolation else 0) ||| hvsPpfAgc ||| (scale &&& 0x1ffff) <<< 8 |||
    UInt32.ofNat phase.toNat

def tpzScale (source destination : UInt32) : UInt32 :=
  if destination < source then source <<< 16 / destination else ((1 : UInt32) <<< (16 : UInt32)) + 1

def makeTpzWord0 (source destination : UInt32) : UInt32 := (tpzScale source destination &&& 0x1fffff) <<< 8

def makeTpzWord1 (source destination : UInt32) : UInt32 :=
  (if destination < source then (~~~0 : UInt32) / tpzScale source destination else ((1 : UInt32) <<< (16 : UInt32)) - 1) &&& 0xffff

/-! ### Building a list -/

def appendWord (capacity : Nat) (words : List UInt32) (value : UInt32) : Option (List UInt32) :=
  if words.length ≥ capacity then none else some (words ++ [value])

/-- Several calls of `AppendWord`. -/
def appendWords (capacity : Nat) (values words : List UInt32) : Option (List UInt32) :=
  values.foldlM (appendWord capacity) words

namespace Hvs5Plane

def bytesPerPixel (plane : Hvs5Plane) : UInt32 := if plane.format = .argb8888 then 4 else 2

/-- The checks of `AppendPlane`. -/
def accepted (plane : Hvs5Plane) (displayWidth displayHeight : UInt32) : Bool :=
  !(plane.framebufferBusAddress = 0 || plane.framebufferBusAddress &&& 1 ≠ 0 ||
    plane.width = 0 || plane.width > hvs5MaximumDimension || plane.height = 0 || plane.height > hvs5MaximumDimension ||
    plane.destinationX > hvs5MaximumX || plane.destinationY > hvs5MaximumY ||
    plane.destinationWidth = 0 || plane.destinationWidth > hvs5MaximumDimension ||
    plane.destinationHeight = 0 || plane.destinationHeight > hvs5MaximumDimension ||
    displayWidth = 0 || displayWidth > hvs5MaximumDimension ||
    displayHeight = 0 || displayHeight > hvs5MaximumDimension ||
    !fitsDisplay plane.destinationX plane.destinationWidth displayWidth ||
    !fitsDisplay plane.destinationY plane.destinationHeight displayHeight ||
    plane.width > hvsMaximumRasterPitch / plane.bytesPerPixel || plane.pitch < plane.width * plane.bytesPerPixel ||
    plane.pitch > hvsMaximumRasterPitch || plane.pitch &&& (plane.bytesPerPixel - 1) ≠ 0 ||
    plane.format = .other || plane.filter = .other)

def horizontal (plane : Hvs5Plane) : HvsScaling := getScaling plane.width plane.destinationWidth
def vertical (plane : Hvs5Plane) : HvsScaling := getScaling plane.height plane.destinationHeight
def unity (plane : Hvs5Plane) : Bool := plane.horizontal = .none && plane.vertical = .none
def nearest (plane : Hvs5Plane) : Bool := plane.filter = .nearest
def usesPpf (plane : Hvs5Plane) : Bool := plane.horizontal = .ppf || plane.vertical = .ppf

def control2 (plane : Hvs5Plane) : UInt32 :=
  if plane.format = .rgb565 then hvs5Ctl2AlphaModeFixed ||| hvs5Ctl2OpaqueAlpha else hvs5Ctl2OpaqueAlpha

def kernelSlot (plane : Hvs5Plane) : UInt32 := if plane.nearest then hvs5NearestKernelSlot else hvs5MitchellKernelSlot

def pixelFormat (plane : Hvs5Plane) : UInt32 :=
  if plane.format = .argb8888 then hvsPixelFormatRgba8888 else hvsPixelFormatRgb565

def pixelOrder (plane : Hvs5Plane) : UInt32 :=
  if plane.format = .argb8888 then hvsCtl0OrderArgb else hvsCtl0OrderXrgb

/-- The words of the destination and the source. -/
def imageWords (plane : Hvs5Plane) : List UInt32 :=
  [(0 : UInt32), plane.destinationY <<< 16 ||| plane.destinationX, plane.control2] ++
    (if plane.unity then [] else [plane.destinationHeight <<< 16 ||| plane.destinationWidth]) ++
    [plane.height <<< 16 ||| plane.width, hvsContextPlaceholder, plane.framebufferBusAddress, hvsContextPlaceholder,
      plane.pitch]

def scalingWords (plane : Hvs5Plane) (planeIndex : UInt32) : List UInt32 :=
  (if plane.vertical = .none then [] else [planeIndex * hvsLbmPlaneStrideWords]) ++
    (if plane.horizontal = .ppf then [makePpfWord plane.width plane.destinationWidth plane.nearest] else []) ++
    (if plane.vertical = .ppf then
      [makePpfWord plane.height plane.destinationHeight plane.nearest, hvsContextPlaceholder] else []) ++
    (if plane.horizontal = .tpz then
      [makeTpzWord0 plane.width plane.destinationWidth, makeTpzWord1 plane.width plane.destinationWidth] else []) ++
    (if plane.vertical = .tpz then
      [makeTpzWord0 plane.height plane.destinationHeight, makeTpzWord1 plane.height plane.destinationHeight,
        hvsContextPlaceholder] else []) ++
    (if plane.usesPpf then List.replicate 4 plane.kernelSlot else [])

def requiredKernels (plane : Hvs5Plane) (kernels : Hvs5FilterKernelUsage) : Hvs5FilterKernelUsage :=
  if plane.usesPpf then
    if plane.nearest then { kernels with nearest := true } else { kernels with mitchell := true }
  else kernels

def control (plane : Hvs5Plane) (planeWords : UInt32) : UInt32 :=
  let scaleField := if plane.unity then 0 else makeScaleField plane.horizontal plane.vertical
  hvsCtl0Valid ||| planeWords <<< hvsCtl0SizeShift ||| plane.pixelOrder ||| (if plane.unity then hvs5Ctl0Unity else 0) |||
    hvs5Ctl0AlphaExpand ||| hvs5Ctl0RgbExpand ||| scaleField <<< hvsCtl0ScaleShift0 |||
    scaleField <<< hvsCtl0ScaleShift1 ||| plane.pixelFormat

end Hvs5Plane

structure DlistBuild where
  words : List UInt32 := []
  requiredKernels : Hvs5FilterKernelUsage := {}
  deriving DecidableEq

def appendPlane (displayWidth displayHeight : UInt32) (capacity : Nat) (s : DlistBuild)
    (indexed : Hvs5Plane × Nat) : Option DlistBuild := do
  let plane := indexed.1
  if !plane.accepted displayWidth displayHeight then none
  else
    let start := s.words.length
    let words ← appendWords capacity plane.imageWords s.words
    let words ← appendWords capacity (plane.scalingWords (UInt32.ofNat indexed.2)) words
    let planeWords := words.length - start
    if planeWords = 0 ∨ planeWords > 0x3f then none
    else
      return { words := words.set start (plane.control (UInt32.ofNat planeWords))
               requiredKernels := plane.requiredKernels s.requiredKernels }

/-- `BuildHvs5Dlist`: the words of the list and the kernels it needs. -/
def buildHvs5Dlist (planes : List Hvs5Plane) (displayWidth displayHeight : UInt32) (capacity : Nat) :
    Option DlistBuild := do
  if planes = [] ∨ planes.length > hvs5MaximumPlanes ∨ capacity = 0 ∨ capacity > hvs5MaximumArmDlistWords then none
  else
    let s ← planes.zipIdx.foldlM (appendPlane displayWidth displayHeight capacity) {}
    let words ← appendWord capacity s.words hvsCtl0End
    return { s with words := words }

structure Hvs5Rgb565UnityPlane where
  framebufferBusAddress : UInt32
  pitch : UInt32
  width : UInt32
  height : UInt32
  destinationX : UInt32
  destinationY : UInt32
  displayWidth : UInt32
  displayHeight : UInt32

/-- `BuildHvs5Rgb565UnityDlist` -/
def buildHvs5Rgb565UnityDlist (plane : Hvs5Rgb565UnityPlane) (capacity : Nat) : Option (List UInt32) :=
  if capacity < hvs5Rgb565UnityDlistWords ∨
      plane.framebufferBusAddress = 0 ∨ plane.framebufferBusAddress &&& 1 ≠ 0 ∨
      plane.width = 0 ∨ plane.width > hvs5MaximumDimension ∨ plane.height = 0 ∨ plane.height > hvs5MaximumDimension ∨
      plane.destinationX > hvs5MaximumX ∨ plane.destinationY > hvs5MaximumY ∨
      plane.displayWidth = 0 ∨ plane.displayWidth > hvs5MaximumDimension ∨
      plane.displayHeight = 0 ∨ plane.displayHeight > hvs5MaximumDimension ∨
      ¬ fitsDisplay plane.destinationX plane.width plane.displayWidth ∨
      ¬ fitsDisplay plane.destinationY plane.height plane.displayHeight ∨
      plane.width > hvsMaximumRasterPitch / 2 ∨ plane.pitch < plane.width * 2 ∨
      plane.pitch > hvsMaximumRasterPitch ∨ plane.pitch &&& 1 ≠ 0 then none
  else
    some [hvsCtl0Valid ||| hvs5Rgb565UnityPlaneWords <<< hvsCtl0SizeShift ||| hvsCtl0OrderXrgb ||| hvs5Ctl0Unity |||
        hvs5Ctl0AlphaExpand ||| hvs5Ctl0RgbExpand ||| hvsPixelFormatRgb565,
      plane.destinationY <<< 16 ||| plane.destinationX, hvs5Ctl2AlphaModeFixed ||| hvs5Ctl2OpaqueAlpha,
      plane.height <<< 16 ||| plane.width, hvsContextPlaceholder, plane.framebufferBusAddress, hvsContextPlaceholder,
      plane.pitch, hvsCtl0End]

/-! ### Inspecting a list -/

structure Hvs5DlistInfo where
  endFound : Bool := false
  planeCount : Nat := 0
  usedWords : Nat := 0
  hash : UInt32 := 0
  deriving DecidableEq, Repr

/-- What `InspectHvs5Dlist` comes to: it read behind the array, or it returned. -/
inductive Inspection where
  | outside
  | returned (success : Bool) (info : Hvs5DlistInfo)

/-- The four bytes of a word, from the low one on. -/
def hashBytes (hash value : UInt32) : Nat → UInt32
  | 0 => hash
  | bytes + 1 => hashBytes ((hash ^^^ (value &&& 0xff)) * 16777619) (value >>> 8) bytes

/-- `Fnv1a32` on the first words, none where one of them is behind the array. -/
def fnv1a32 (words : Array UInt32) (count : Nat) : Option UInt32 :=
  (List.range count).foldlM (fun hash i => words[i]?.map fun value => hashBytes hash value 4) 2166136261

/-- The number of words of a plane, from its first one. -/
def planeWordsOf (control : UInt32) : Nat := ((control >>> hvsCtl0SizeShift) &&& hvsCtl0SizeMask).toNat

/-- The loop of `InspectHvs5Dlist`. -/
def inspectFrom (words : Array UInt32) (wordCount : Nat) (offset planeCount : Nat) : Inspection :=
  if offset < wordCount then
    match words[offset]? with
    | none => .outside
    | some control =>
      if control &&& hvsCtl0End ≠ 0 then
        match fnv1a32 words (offset + 1) with
        | none => .outside
        | some hash =>
          .returned true { endFound := true, planeCount := planeCount, usedWords := offset + 1, hash := hash }
      else if control &&& hvsCtl0Valid = 0 then .returned false { planeCount := planeCount }
      else
        if hplane : planeWordsOf control = 0 ∨ planeWordsOf control ≥ wordCount - offset then
          .returned false { planeCount := planeCount }
        else inspectFrom words wordCount (offset + planeWordsOf control) (planeCount + 1)
  else .returned false { planeCount := planeCount }
termination_by wordCount - offset
decreasing_by omega

/-- `InspectHvs5Dlist` -/
def inspectHvs5Dlist (words : Array UInt32) (wordCount : UInt32) : Inspection :=
  if wordCount = 0 then .returned false {} else inspectFrom words wordCount.toNat 0 0

end Bmx.Graphics
