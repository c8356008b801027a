import Bmx.Graphics.Rgba8TextureLayout

/-!
# Padded images

The padded sizes are whole tiles or blocks, as the tiling needs them, and hold the image. Nothing wraps
while a layout is computed.
-/

namespace Bmx.Graphics

/-- What a computed layout looks like. -/
structure Rgba8TextureLayout.Sound (layout : Rgba8TextureLayout) : Prop where
  width : 0 < layout.width
  height : 0 < layout.height
  paddedWidth : layout.width ≤ layout.paddedWidth
  paddedHeight : layout.height ≤ layout.paddedHeight
  widthBound : layout.paddedWidth ≤ 2 ^ 14
  heightBound : layout.paddedHeight ≤ 2 ^ 15
  sizeBytes : layout.sizeBytes = layout.paddedWidth * 4 * layout.paddedHeight
  sizeBound : layout.sizeBytes < 2 ^ 32
  shape :
    match layout.tiling with
    | .linearTile => 4 ∣ layout.paddedWidth ∧ 4 ∣ layout.paddedHeight ∧ (layout.paddedWidth = 4 ∨ layout.paddedHeight = 4)
    | .ubLinear1 => layout.paddedWidth = 8 ∧ 8 ∣ layout.paddedHeight
    | .ubLinear2 => layout.paddedWidth = 16 ∧ 8 ∣ layout.paddedHeight
    | .uifNoXor => 32 ∣ layout.paddedWidth ∧ 8 ∣ layout.paddedHeight
    | .uifXor => 32 ∣ layout.paddedWidth ∧ 256 ∣ layout.paddedHeight

def roundUp (value alignment : Nat) : Nat := (value + alignment - 1) / alignment * alignment

theorem alignUp_eq {value k : Nat} (hvalue : value ≤ maxImageDimension) (hk : k ≤ 5) :
    alignUp value (2 ^ k) = pure (some (roundUp value (2 ^ k))) := by
  have hpos := Nat.two_pow_pos k
  have hsmall : 2 ^ k ≤ 2 ^ 5 := Nat.pow_le_pow_right (by decide) hk
  have hvalue' : value ≤ 16383 := hvalue
  have hmax : maxWord32 = 4294967295 := rfl
  unfold alignUp
  rw [if_neg (by omega), sub32_eq hpos (by omega), pure_bind, sub32_eq (by omega) (by omega), pure_bind,
    if_neg (by omega), add32_eq (by omega), pure_bind, sub32_eq (by omega) (by omega), pure_bind,
    and_not32_low _ _ (by omega) (by omega)]
  rfl

/-- What an image looks like that was padded for its tiling. -/
structure PaddedImage.Sound (width height : Nat) (image : PaddedImage) : Prop where
  paddedWidth : width ≤ image.paddedWidth
  paddedHeight : height ≤ image.paddedHeight
  widthBound : image.paddedWidth ≤ 2 ^ 14
  heightBound : image.paddedHeight ≤ 2 ^ 15
  shape :
    match image.tiling with
    | .linearTile => 4 ∣ image.paddedWidth ∧ 4 ∣ image.paddedHeight ∧ (image.paddedWidth = 4 ∨ image.paddedHeight = 4)
    | .ubLinear1 => image.paddedWidth = 8 ∧ 8 ∣ image.paddedHeight
    | .ubLinear2 => image.paddedWidth = 16 ∧ 8 ∣ image.paddedHeight
    | .uifNoXor => 32 ∣ image.paddedWidth ∧ 8 ∣ image.paddedHeight
    | .uifXor => 32 ∣ image.paddedWidth ∧ 256 ∣ image.paddedHeight

theorem alignImage_eq {width height i j : Nat} (tiling : Rgba8TextureTiling) (hwidth : width ≤ maxImageDimension)
    (hheight : height ≤ maxImageDimension) (hi : i ≤ 5) (hj : j ≤ 5) :
    alignImage tiling width height (2 ^ i) (2 ^ j) =
      pure (some ⟨tiling, roundUp width (2 ^ i), roundUp height (2 ^ j), 0⟩) := by
  unfold alignImage
  rw [alignUp_eq hwidth hi, pure_bind]
  dsimp only
  rw [alignUp_eq hheight hj, pure_bind]

theorem computeUifBlockPadding_eq (paddedHeight : Nat) :
    ∃ pad, computeUifBlockPadding paddedHeight = pure pad ∧ pad ≤ 32 := by
  have hrows : uifPageCacheBytes / uifBlockRowBytes = 32 := rfl
  have hhalves : (uifPageBytes / uifBlockRowBytes * 3) >>> 1 = 6 := rfl
  unfold computeUifBlockPadding
  simp only [hrows, hhalves]
  split
  · exact ⟨0, rfl, by decide⟩
  split
  · split
    · exact ⟨0, rfl, by decide⟩
    · refine ⟨_, sub32_eq (by omega) (by omega), ?_⟩
      omega
  split
  · refine ⟨_, sub32_eq (by omega) (by omega), ?_⟩
    omega
  · exact ⟨0, rfl, by decide⟩

theorem padUif_eq {width height : Nat} {image : PaddedImage} (hwidth : width ≤ image.paddedWidth)
    (hheight : height ≤ image.paddedHeight) (hwidthBound : image.paddedWidth ≤ 2 ^ 14)
    (hheightBound : image.paddedHeight ≤ 2 ^ 14) (hx : 32 ∣ image.paddedWidth) (hy : 8 ∣ image.paddedHeight) :
    ∃ padded, padUif image = pure (some padded) ∧ padded.Sound width height := by
  obtain ⟨pad, hpad, hsmall⟩ := computeUifBlockPadding_eq image.paddedHeight
  have hmax : maxWord32 = 4294967295 := rfl
  have hrows : uifPageCacheBytes / uifBlockRowBytes = 32 := rfl
  unfold padUif
  simp only [uifBlockHeight, utileHeight]
  rw [hpad, pure_bind, sub32_eq (by omega) (by omega), pure_bind, if_neg (by omega), mul32_eq (by omega), pure_bind,
    add32_eq (by omega), pure_bind]
  refine ⟨_, rfl, hwidth, ?_, hwidthBound, ?_, ?_⟩
  · change height ≤ image.paddedHeight + pad * (4 * 2)
    omega
  · change image.paddedHeight + pad * (4 * 2) ≤ 2 ^ 15
    omega
  · dsimp only
    split
    · rename_i htiling
      split at htiling <;> cases htiling
    · rename_i htiling
      split at htiling <;> cases htiling
    · rename_i htiling
      split at htiling <;> cases htiling
    · exact ⟨hx, by omega⟩
    · rename_i htiling
      rw [hrows] at htiling
      split at htiling
      · exact ⟨hx, by omega⟩
      · cases htiling

theorem padImage_eq {width height : Nat} (hwidth : 0 < width ∧ width ≤ maxImageDimension)
    (hheight : 0 < height ∧ height ≤ maxImageDimension) :
    ∃ image, padImage width height = pure (some image) ∧ image.Sound width height := by
  simp only [maxImageDimension] at hwidth hheight
  unfold padImage
  simp only [uifBlockWidth, utileWidth, utileHeight]
  split
  · rename_i hsmall
    refine ⟨_, alignImage_eq .linearTile hwidth.2 hheight.2 (i := 2) (j := 2) (by decide) (by decide), ?_⟩
    constructor <;> simp only [roundUp] <;> omega
  split
  · rename_i hlarge hone
    refine ⟨_, alignImage_eq .ubLinear1 hwidth.2 hheight.2 (i := 3) (j := 3) (by decide) (by decide), ?_⟩
    constructor <;> simp only [roundUp] <;> omega
  split
  · rename_i hlarge hone htwo
    refine ⟨_, alignImage_eq .ubLinear2 hwidth.2 hheight.2 (i := 4) (j := 3) (by decide) (by decide), ?_⟩
    constructor <;> simp only [roundUp] <;> omega
  · have haligned := alignImage_eq .uifNoXor hwidth.2 hheight.2 (i := 5) (j := 3) (by decide) (by decide)
    change alignImage .uifNoXor width height (4 * (4 * 2)) uifBlockHeight = _ at haligned
    rw [haligned, pure_bind]
    apply padUif_eq <;> simp only [roundUp] <;> omega

/-- Computing a layout does not wrap, and what it computes is sound. -/
theorem computeRgba8TextureLayout_eq (width height maxArrayStride : Nat) :
    ∃ result, computeRgba8TextureLayout width height maxArrayStride = pure result ∧
      ∀ layout, result = some layout → layout.Sound ∧ layout.width = width ∧ layout.height = height := by
  unfold computeRgba8TextureLayout
  split
  · exact ⟨none, rfl, fun _ hnone => by cases hnone⟩
  obtain ⟨image, himage, hsound⟩ := padImage_eq (by omega : 0 < width ∧ width ≤ maxImageDimension)
    (by omega : 0 < height ∧ height ≤ maxImageDimension)
  rw [himage, pure_bind]
  dsimp only
  split
  · exact ⟨none, rfl, fun _ hnone => by cases hnone⟩
  split
  · exact ⟨none, rfl, fun _ hnone => by cases hnone⟩
  refine ⟨_, rfl, ?_⟩
  intro layout hlayout
  cases hlayout
  refine ⟨⟨?_, ?_, hsound.paddedWidth, hsound.paddedHeight, hsound.widthBound, hsound.heightBound, rfl, ?_,
    hsound.shape⟩, rfl, rfl⟩
  · dsimp only
    omega
  · dsimp only
    omega
  · have hmax : maxWord32 = 4294967295 := rfl
    dsimp only
    omega

end Bmx.Graphics
