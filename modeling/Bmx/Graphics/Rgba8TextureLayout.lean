import Bmx.Base.Bytes
import Bmx.Base.Word32

/-!
# The layout of RGBA8 textures

The texture unit keeps an image in tiles of 4 × 4 pixels. A small image is a row or a column of tiles;
larger ones are made of blocks of 2 × 2 tiles, in rows or in columns of four blocks. The uploader writes
the tiles in the order of their addresses.
-/

namespace Bmx.Graphics

abbrev textureAddressAlignment : Nat := 64
abbrev maxImageDimension : Nat := 2 ^ 14 - 1
abbrev rgba8BytesPerPixel : Nat := 4
abbrev utileWidth : Nat := 4
abbrev utileHeight : Nat := 4
abbrev uifBlockWidth : Nat := utileWidth * 2
abbrev uifBlockHeight : Nat := utileHeight * 2
abbrev uifBlocksPerColumn : Nat := 4
abbrev uifBlockBytes : Nat := 256
abbrev uifBlockRowBytes : Nat := uifBlocksPerColumn * uifBlockBytes
abbrev uifPageBytes : Nat := 4096
abbrev uifBanks : Nat := 8
abbrev uifPageCacheBytes : Nat := uifPageBytes * uifBanks

inductive Rgba8TextureTiling
  | linearTile | ubLinear1 | ubLinear2 | uifNoXor | uifXor
  deriving DecidableEq, Repr

structure Rgba8TextureLayout where
  width : Nat
  height : Nat
  paddedWidth : Nat
  paddedHeight : Nat
  paddedRowBytes : Nat
  sizeBytes : Nat
  arrayStride64Bytes : Nat
  level0UbPad : Nat
  tiling : Rgba8TextureTiling

def alignUp (value alignment : Nat) : Wrapping (Option Nat) := do
  if alignment = 0 then return none
  let low ← sub32 alignment 1
  let most ← sub32 maxWord32 low
  if value > most then return none
  let sum ← add32 value alignment
  let last ← sub32 sum 1
  return some (last &&& not32 low)

def computeUifBlockPadding (paddedHeight : Nat) : Wrapping Nat := do
  let pageRows := uifPageBytes / uifBlockRowBytes
  let pageRowsTimesThreeHalves := (pageRows * 3) >>> 1
  let pageCacheRows := uifPageCacheBytes / uifBlockRowBytes
  let pageCacheMinusThreeHalves := pageCacheRows - pageRowsTimesThreeHalves
  let heightBlocks := paddedHeight / uifBlockHeight
  let cacheOffset := heightBlocks % pageCacheRows
  if cacheOffset = 0 then return 0
  if cacheOffset < pageRowsTimesThreeHalves then
    if heightBlocks < pageCacheRows then return 0 else sub32 pageRowsTimesThreeHalves cacheOffset
  else if cacheOffset > pageCacheMinusThreeHalves then sub32 pageCacheRows cacheOffset
  else return 0

/-- The tiling of an image, its padded size, and the rows of blocks that were added. -/
structure PaddedImage where
  tiling : Rgba8TextureTiling
  paddedWidth : Nat
  paddedHeight : Nat
  level0UbPad : Nat := 0

def alignImage (tiling : Rgba8TextureTiling) (width height alignX alignY : Nat) : Wrapping (Option PaddedImage) := do
  match ← alignUp width alignX with
  | none => return none
  | some paddedWidth =>
    match ← alignUp height alignY with
    | none => return none
    | some paddedHeight => return some { tiling := tiling, paddedWidth := paddedWidth, paddedHeight := paddedHeight }

/-- An image wider than two blocks, with rows of blocks added against conflicts of pages. -/
def padUif (image : PaddedImage) : Wrapping (Option PaddedImage) := do
  let pad ← computeUifBlockPadding image.paddedHeight
  let most ← sub32 maxWord32 image.paddedHeight
  if pad > most / uifBlockHeight then return none
  let added ← mul32 pad uifBlockHeight
  let paddedHeight ← add32 image.paddedHeight added
  let paddedBlockRows := paddedHeight / uifBlockHeight
  return some { image with
    paddedHeight := paddedHeight
    level0UbPad := pad
    tiling := if paddedBlockRows % (uifPageCacheBytes / uifBlockRowBytes) = 0 then .uifXor else .uifNoXor }

/-- The tiling that an image gets. -/
def padImage (width height : Nat) : Wrapping (Option PaddedImage) := do
  if width ≤ utileWidth ∨ height ≤ utileHeight then alignImage .linearTile width height utileWidth utileHeight
  else if width ≤ uifBlockWidth then alignImage .ubLinear1 width height uifBlockWidth uifBlockHeight
  else if width ≤ 2 * uifBlockWidth then alignImage .ubLinear2 width height (2 * uifBlockWidth) uifBlockHeight
  else
    match ← alignImage .uifNoXor width height (uifBlocksPerColumn * uifBlockWidth) uifBlockHeight with
    | none => return none
    | some image => padUif image

/-- `ComputeRgba8TextureLayout`. Sizes in bytes are computed in 64 bits. -/
def computeRgba8TextureLayout (width height maxArrayStride : Nat) : Wrapping (Option Rgba8TextureLayout) := do
  if width = 0 ∨ width > maxImageDimension ∨ height = 0 ∨ height > maxImageDimension ∨ maxArrayStride = 0 then
    return none
  match ← padImage width height with
  | none => return none
  | some image =>
    let rowBytes := image.paddedWidth * rgba8BytesPerPixel
    let sizeBytes := rowBytes * image.paddedHeight
    if rowBytes > maxWord32 ∨ sizeBytes > maxWord32 ∨ sizeBytes = 0 ∨
        sizeBytes &&& (textureAddressAlignment - 1) ≠ 0 then
      return none
    let arrayStride := sizeBytes / textureAddressAlignment
    if arrayStride = 0 ∨ arrayStride > maxArrayStride then return none
    return some
      { width := width
        height := height
        paddedWidth := image.paddedWidth
        paddedHeight := image.paddedHeight
        paddedRowBytes := rowBytes
        sizeBytes := sizeBytes
        arrayStride64Bytes := arrayStride
        level0UbPad := image.level0UbPad
        tiling := image.tiling }

/-! ### Offsets -/

def utilePixelOffset (x y : Nat) : Wrapping Nat := do
  let row ← mul32 y utileWidth
  let word ← add32 row x
  mul32 word rgba8BytesPerPixel

/-- What is added to the offset of a block for the tile and the pixel in it. -/
def uifPixelOffset (block x y : Nat) : Wrapping Nat := do
  let right ← add32 block (if x &&& utileWidth ≠ 0 then 64 else 0)
  let lower ← add32 right (if y &&& utileHeight ≠ 0 then 128 else 0)
  let pixel ← utilePixelOffset (x &&& (utileWidth - 1)) (y &&& (utileHeight - 1))
  add32 lower pixel

/-- `Rgba8TexturePixelOffset`, up to its last check. -/
def tilingPixelOffset (layout : Rgba8TextureLayout) (x y : Nat) : Wrapping (Option Nat) := do
  match layout.tiling with
  | .linearTile =>
    let utileIndexX := x / utileWidth
    let utileIndexY := y / utileHeight
    if utileIndexX ≠ 0 ∧ utileIndexY ≠ 0 then return none
    let index ← add32 utileIndexX utileIndexY
    let utile ← mul32 64 index
    let pixel ← utilePixelOffset (x &&& (utileWidth - 1)) (y &&& (utileHeight - 1))
    return some (← add32 utile pixel)
  | .ubLinear1 | .ubLinear2 =>
    let columns := if layout.tiling = .ubLinear1 then 1 else 2
    let row ← mul32 (y / uifBlockHeight) columns
    let index ← add32 row (x / uifBlockWidth)
    let block ← mul32 uifBlockBytes index
    return some (← uifPixelOffset block x y)
  | .uifNoXor | .uifXor =>
    let blockX := x / uifBlockWidth
    let blockY :=
      if layout.tiling = .uifXor ∧ (blockX / uifBlocksPerColumn) &&& 1 ≠ 0 then (y / uifBlockHeight) ^^^ 0x10
      else y / uifBlockHeight
    let blockRows := layout.paddedHeight / uifBlockHeight
    let lastRow ← sub32 blockRows 1
    let columnBlocks ← mul32 lastRow uifBlocksPerColumn
    let column ← mul32 (blockX / uifBlocksPerColumn) columnBlocks
    let inRow ← add32 column blockX
    let rows ← mul32 blockY uifBlocksPerColumn
    let blockId ← add32 inRow rows
    let block ← mul32 blockId uifBlockBytes
    return some (← uifPixelOffset block x y)

/-- `Rgba8TexturePixelOffset`. -/
def rgba8TexturePixelOffset (layout : Rgba8TextureLayout) (x y : Nat) : Wrapping (Option Nat) := do
  if x ≥ layout.width ∨ y ≥ layout.height ∨ layout.paddedWidth < layout.width ∨ layout.paddedHeight < layout.height ∨
      layout.sizeBytes = 0 then
    return none
  match ← tilingPixelOffset layout x y with
  | none => return none
  | some result =>
    let most ← sub32 layout.sizeBytes rgba8BytesPerPixel
    if result > most then return none
    return some result

/-! ### The upload -/

/-- The source fills a region of `values`, and tells whether it could. -/
abbrev Rgba8TextureRegionSource :=
  (originX originY width height : Nat) → (values : Nat → UInt32) → (strideWords : Nat) → Bool × (Nat → UInt32)

def wordByte (value : UInt32) (place : Nat) : UInt8 := (value >>> (8 * UInt32.ofNat place)).toUInt8

/-- `memcpy` of words. -/
def copyWords (destination : Nat → UInt8) (offset : Nat) (values : Nat → UInt32) (first count : Nat) : Nat → UInt8 :=
  fun place =>
    if offset ≤ place ∧ place < offset + 4 * count then
      wordByte (values (first + (place - offset) / 4)) ((place - offset) % 4)
    else destination place

def writeUtileValues (destination : Nat → UInt8) (offset : Nat) (values : Nat → UInt32) (first strideWords : Nat) :
    Wrapping (Nat → UInt8) :=
  (List.range utileHeight).foldlM (fun destination y => do
    let row ← mul32 y utileWidth
    let rowBytes ← mul32 row rgba8BytesPerPixel
    let line ← mul32 y strideWords
    return copyWords destination (offset + rowBytes) values (first + line) utileWidth) destination

def validRegionExtent (origin logicalExtent regionExtent : Nat) : Wrapping Nat := do
  if origin ≥ logicalExtent then return 0
  let remaining ← sub32 logicalExtent origin
  return if remaining < regionExtent then remaining else regionExtent

/-- The destination, and how much of it is written. -/
structure TextureUpload where
  destination : Nat → UInt8
  output : Nat

/-- The values of a region, and whether the source could supply them. -/
def readRegion (layout : Rgba8TextureLayout) (source : Rgba8TextureRegionSource)
    (originX originY regionWidth regionHeight : Nat) : Wrapping (Bool × (Nat → UInt32)) := do
  let width ← validRegionExtent originX layout.width regionWidth
  let height ← validRegionExtent originY layout.height regionHeight
  return if width ≠ 0 ∧ height ≠ 0 then source originX originY width height (fun _ => 0) regionWidth
    else (true, fun _ => 0)

/-- A tile is read and written. -/
def uploadUtile (layout : Rgba8TextureLayout) (source : Rgba8TextureRegionSource) (originX originY : Nat)
    (u : TextureUpload) : Wrapping (Bool × TextureUpload) := do
  let (supplied, values) ← readRegion layout source originX originY utileWidth utileHeight
  if supplied = false then return (false, u)
  let destination ← writeUtileValues u.destination u.output values 0 utileWidth
  return (true, { destination := destination, output := u.output + 64 })

/-- A block is read and its four tiles are written. -/
def uploadUifBlock (layout : Rgba8TextureLayout) (source : Rgba8TextureRegionSource) (originX originY : Nat)
    (u : TextureUpload) : Wrapping (Bool × TextureUpload) := do
  let (supplied, values) ← readRegion layout source originX originY uifBlockWidth uifBlockHeight
  if supplied = false then return (false, u)
  let destination ← writeUtileValues u.destination u.output values 0 uifBlockWidth
  let destination ← writeUtileValues destination (u.output + 64) values utileWidth uifBlockWidth
  let destination ← writeUtileValues destination (u.output + 128) values (utileHeight * uifBlockWidth) uifBlockWidth
  let destination ← writeUtileValues destination (u.output + 192) values
    (utileHeight * uifBlockWidth + utileWidth) uifBlockWidth
  return (true, { destination := destination, output := u.output + uifBlockBytes })

/-- A loop that ends early where its body fails. -/
def uploadLoop {β : Type} (body : β → TextureUpload → Wrapping (Bool × TextureUpload)) :
    List β → TextureUpload → Wrapping (Bool × TextureUpload)
  | [], u => return (true, u)
  | place :: rest, u => do
    let (supplied, u) ← body place u
    if supplied = false then return (false, u)
    uploadLoop body rest u

def nestedPlaces (outer inner : Nat) : List (Nat × Nat) :=
  (List.range outer).flatMap fun i => (List.range inner).map fun j => (i, j)

def uploadLinearTile (layout : Rgba8TextureLayout) (source : Rgba8TextureRegionSource) (u : TextureUpload) :
    Wrapping (Bool × TextureUpload) :=
  let utilesX := layout.paddedWidth / utileWidth
  let utilesY := layout.paddedHeight / utileHeight
  uploadLoop (fun (utileY, utileX) u => do
    let originX ← mul32 utileX utileWidth
    let originY ← mul32 utileY utileHeight
    uploadUtile layout source originX originY u) (nestedPlaces utilesY utilesX) u

def uploadUbLinear (layout : Rgba8TextureLayout) (source : Rgba8TextureRegionSource) (u : TextureUpload) :
    Wrapping (Bool × TextureUpload) :=
  let columns := if layout.tiling = .ubLinear1 then 1 else 2
  let rows := layout.paddedHeight / uifBlockHeight
  uploadLoop (fun (blockY, blockX) u => do
    let originX ← mul32 blockX uifBlockWidth
    let originY ← mul32 blockY uifBlockHeight
    uploadUifBlock layout source originX originY u) (nestedPlaces rows columns) u

/-- The row of blocks that is kept at a row of addresses. -/
def logicalRow (tiling : Rgba8TextureTiling) (group physicalY : Nat) : Nat :=
  if tiling = .uifXor ∧ group &&& 1 ≠ 0 then physicalY ^^^ 0x10 else physicalY

def uploadUif (layout : Rgba8TextureLayout) (source : Rgba8TextureRegionSource) (u : TextureUpload) :
    Wrapping (Bool × TextureUpload) :=
  let groups := layout.paddedWidth / (uifBlocksPerColumn * uifBlockWidth)
  let rows := layout.paddedHeight / uifBlockHeight
  let places := (List.range groups).flatMap fun group =>
    (nestedPlaces rows uifBlocksPerColumn).map fun place => (group, place)
  uploadLoop (fun (group, physicalY, column) u => do
    let blocks ← mul32 group uifBlocksPerColumn
    let blockX ← add32 blocks column
    let originX ← mul32 blockX uifBlockWidth
    let originY ← mul32 (logicalRow layout.tiling group physicalY) uifBlockHeight
    uploadUifBlock layout source originX originY u) places u

/-- `UploadRgba8TexturePhysical`: whether the whole texture was written, and the destination. -/
def uploadRgba8TexturePhysical (destination : Nat → UInt8) (destinationSize : Nat) (layout : Rgba8TextureLayout)
    (source : Rgba8TextureRegionSource) : Wrapping (Bool × (Nat → UInt8)) := do
  if destinationSize < layout.sizeBytes ∨ layout.sizeBytes = 0 then return (false, destination)
  let u : TextureUpload := { destination := destination, output := 0 }
  let (supplied, u) ←
    match layout.tiling with
    | .linearTile => uploadLinearTile layout source u
    | .ubLinear1 | .ubLinear2 => uploadUbLinear layout source u
    | .uifNoXor | .uifXor => uploadUif layout source u
  return (supplied && u.output = layout.sizeBytes, u.destination)

end Bmx.Graphics
