import Bmx.Base.GridOrder
import Bmx.Graphics.Rgba8TextureLayoutSpec

/-!
# The order of the pixels

A layout visits every padded pixel once: tile by tile or block by block, and in each of them row by row.
The offset of a pixel is its place in that order.
-/

namespace Bmx.Graphics

open GridOrder Nat

/-! ### Tiles and blocks -/

/-- The place of a pixel in a tile. -/
def utileIndex (x y : Nat) : Nat := y * 4 + x

def utilePlace (i : Nat) : Nat × Nat := (i % 4, i / 4)

theorem utile_order : GridOrder 16 4 4 utilePlace utileIndex := rowMajor 4 4 (by decide)

/-- The place of a pixel in a block of four tiles. -/
def uifBlockIndex (x y : Nat) : Nat := (y / 4 * 2 + x / 4) * 16 + utileIndex (x % 4) (y % 4)

def uifBlockPlace (i : Nat) : Nat × Nat :=
  (i / 16 % 2 * 4 + (utilePlace (i % 16)).1, i / 16 / 2 * 4 + (utilePlace (i % 16)).2)

theorem uifBlock_order : GridOrder 64 8 8 uifBlockPlace uifBlockIndex :=
  (rowMajor 2 2 (by decide)).blocks utile_order (by decide) (by decide) (by decide)

/-! ### Columns of blocks -/

theorem xor_div_rows (row : Nat) : (row ^^^ 0x10) / 32 = row / 32 := by
  have hdiv := xor_div_two_pow (a := row) (b := 0x10) (n := 5)
  simpa using hdiv

theorem logicalRow_lt {tiling : Rgba8TextureTiling} {rows row : Nat} (hrows : tiling = .uifXor → 32 ∣ rows)
    (hrow : row < rows) (group : Nat) : logicalRow tiling group row < rows := by
  unfold logicalRow
  split
  · rename_i hxor
    have hmultiple := hrows hxor.1
    have hdiv := xor_div_rows row
    omega
  · exact hrow

theorem logicalRow_logicalRow (tiling : Rgba8TextureTiling) (group row : Nat) :
    logicalRow tiling group (logicalRow tiling group row) = row := by
  unfold logicalRow
  split
  · exact xor_xor_cancel_right row 0x10
  · rfl

def uifIndex (tiling : Rgba8TextureTiling) (rows blockX blockY : Nat) : Nat :=
  blockX / 4 * (rows * 4) + (logicalRow tiling (blockX / 4) blockY * 4 + blockX % 4)

def uifPlace (tiling : Rgba8TextureTiling) (rows i : Nat) : Nat × Nat :=
  (i / (rows * 4) * 4 + i % (rows * 4) % 4, logicalRow tiling (i / (rows * 4)) (i % (rows * 4) / 4))

theorem uif_order {tiling : Rgba8TextureTiling} {rows : Nat} (groups : Nat) (hrows : tiling = .uifXor → 32 ∣ rows)
    (hpos : 0 < rows) :
    GridOrder (groups * (rows * 4)) (groups * 4) rows (uifPlace tiling rows) (uifIndex tiling rows) := by
  constructor
  · intro i hi
    have hgroup : i / (rows * 4) < groups := Nat.div_lt_of_lt_mul (by rwa [Nat.mul_comm])
    have hinside : i % (rows * 4) < rows * 4 := mod_lt i (by omega)
    have hrow : i % (rows * 4) / 4 < rows := by omega
    refine ⟨?_, logicalRow_lt hrows hrow _, ?_⟩
    · change i / (rows * 4) * 4 + i % (rows * 4) % 4 < groups * 4
      omega
    · have hcolumn : (i / (rows * 4) * 4 + i % (rows * 4) % 4) / 4 = i / (rows * 4) := by omega
      have hlast : (i / (rows * 4) * 4 + i % (rows * 4) % 4) % 4 = i % (rows * 4) % 4 := by omega
      have hback := div_add_mod' i (rows * 4)
      unfold uifIndex uifPlace
      rw [hcolumn, hlast, logicalRow_logicalRow]
      omega
  · intro blockX blockY hx hy
    have hgroup : blockX / 4 < groups := by omega
    have hrow := logicalRow_lt hrows hy (blockX / 4)
    have hinside : logicalRow tiling (blockX / 4) blockY * 4 + blockX % 4 < rows * 4 := by omega
    have hquotient : uifIndex tiling rows blockX blockY / (rows * 4) = blockX / 4 := by
      unfold uifIndex
      rw [Nat.add_comm, add_mul_div_right _ _ (by omega), div_eq_of_lt hinside, Nat.zero_add]
    have hremainder : uifIndex tiling rows blockX blockY % (rows * 4) =
        logicalRow tiling (blockX / 4) blockY * 4 + blockX % 4 := by
      unfold uifIndex
      rw [Nat.add_comm, add_mul_mod_self_right, mod_eq_of_lt hinside]
    constructor
    · unfold uifIndex
      have hnext : (blockX / 4 + 1) * (rows * 4) ≤ groups * (rows * 4) := Nat.mul_le_mul_right _ hgroup
      rw [succ_mul] at hnext
      omega
    · have hrowBack : (logicalRow tiling (blockX / 4) blockY * 4 + blockX % 4) / 4 =
          logicalRow tiling (blockX / 4) blockY := by omega
      have hcolumnBack : blockX / 4 * 4 + (logicalRow tiling (blockX / 4) blockY * 4 + blockX % 4) % 4 = blockX := by
        omega
      unfold uifPlace
      rw [hquotient, hremainder, hrowBack, hcolumnBack, logicalRow_logicalRow]

/-! ### The order of a layout -/

namespace Rgba8TextureLayout

def pixelIndex (layout : Rgba8TextureLayout) (x y : Nat) : Nat :=
  match layout.tiling with
  | .linearTile => (y / 4 * (layout.paddedWidth / 4) + x / 4) * 16 + utileIndex (x % 4) (y % 4)
  | .ubLinear1 => (y / 8 * 1 + x / 8) * 64 + uifBlockIndex (x % 8) (y % 8)
  | .ubLinear2 => (y / 8 * 2 + x / 8) * 64 + uifBlockIndex (x % 8) (y % 8)
  | .uifNoXor | .uifXor =>
    uifIndex layout.tiling (layout.paddedHeight / 8) (x / 8) (y / 8) * 64 + uifBlockIndex (x % 8) (y % 8)

def pixelPlace (layout : Rgba8TextureLayout) (i : Nat) : Nat × Nat :=
  match layout.tiling with
  | .linearTile =>
    (i / 16 % (layout.paddedWidth / 4) * 4 + (utilePlace (i % 16)).1,
      i / 16 / (layout.paddedWidth / 4) * 4 + (utilePlace (i % 16)).2)
  | .ubLinear1 => (i / 64 % 1 * 8 + (uifBlockPlace (i % 64)).1, i / 64 / 1 * 8 + (uifBlockPlace (i % 64)).2)
  | .ubLinear2 => (i / 64 % 2 * 8 + (uifBlockPlace (i % 64)).1, i / 64 / 2 * 8 + (uifBlockPlace (i % 64)).2)
  | .uifNoXor | .uifXor =>
    ((uifPlace layout.tiling (layout.paddedHeight / 8) (i / 64)).1 * 8 + (uifBlockPlace (i % 64)).1,
      (uifPlace layout.tiling (layout.paddedHeight / 8) (i / 64)).2 * 8 + (uifBlockPlace (i % 64)).2)

theorem Sound.order {layout : Rgba8TextureLayout} (h : layout.Sound) :
    GridOrder (layout.paddedWidth * layout.paddedHeight) layout.paddedWidth layout.paddedHeight layout.pixelPlace
      layout.pixelIndex := by
  have hwidth : 0 < layout.paddedWidth := Nat.lt_of_lt_of_le h.width h.paddedWidth
  have hheight : 0 < layout.paddedHeight := Nat.lt_of_lt_of_le h.height h.paddedHeight
  have hshape := h.shape
  unfold pixelPlace pixelIndex
  cases htiling : layout.tiling with
  | linearTile =>
    rw [htiling] at hshape
    obtain ⟨⟨columns, hcolumns⟩, ⟨rows, hrows⟩, -⟩ := hshape
    have horder := (rowMajor columns rows (by omega)).blocks utile_order (by decide) (by decide) (by decide)
    have hquotient : layout.paddedWidth / 4 = columns := by omega
    have hcount : layout.paddedWidth * layout.paddedHeight = rows * columns * 16 := by
      rw [hcolumns, hrows]
      ring
    rw [hquotient, hcount, show layout.paddedWidth = columns * 4 by omega, show layout.paddedHeight = rows * 4 by omega]
    exact horder
  | ubLinear1 =>
    rw [htiling] at hshape
    obtain ⟨hcolumns, ⟨rows, hrows⟩⟩ := hshape
    have horder := (rowMajor 1 rows (by omega)).blocks uifBlock_order (by decide) (by decide) (by decide)
    have hcount : layout.paddedWidth * layout.paddedHeight = rows * 1 * 64 := by
      rw [hcolumns, hrows]
      ring
    rw [hcount, show layout.paddedWidth = 1 * 8 by omega, show layout.paddedHeight = rows * 8 by omega]
    exact horder
  | ubLinear2 =>
    rw [htiling] at hshape
    obtain ⟨hcolumns, ⟨rows, hrows⟩⟩ := hshape
    have horder := (rowMajor 2 rows (by omega)).blocks uifBlock_order (by decide) (by decide) (by decide)
    have hcount : layout.paddedWidth * layout.paddedHeight = rows * 2 * 64 := by
      rw [hcolumns, hrows]
      ring
    rw [hcount, show layout.paddedWidth = 2 * 8 by omega, show layout.paddedHeight = rows * 8 by omega]
    exact horder
  | uifNoXor =>
    rw [htiling] at hshape
    obtain ⟨⟨groups, hgroups⟩, ⟨rows, hrows⟩⟩ := hshape
    have hxor : Rgba8TextureTiling.uifNoXor = .uifXor → 32 ∣ rows := fun hxor => nomatch hxor
    have horder := (uif_order groups hxor (by omega)).blocks uifBlock_order (by decide) (by decide) (by decide)
    have hquotient : layout.paddedHeight / 8 = rows := by omega
    have hcount : layout.paddedWidth * layout.paddedHeight = groups * (rows * 4) * 64 := by
      rw [hgroups, hrows]
      ring
    rw [hquotient, hcount, show layout.paddedWidth = groups * 4 * 8 by omega,
      show layout.paddedHeight = rows * 8 by omega]
    exact horder
  | uifXor =>
    rw [htiling] at hshape
    obtain ⟨⟨groups, hgroups⟩, ⟨pages, hpages⟩⟩ := hshape
    have hxor : Rgba8TextureTiling.uifXor = .uifXor → 32 ∣ 32 * pages := fun _ => Nat.dvd_mul_right 32 pages
    have horder := (uif_order groups hxor (by omega)).blocks uifBlock_order (by decide) (by decide) (by decide)
    have hquotient : layout.paddedHeight / 8 = 32 * pages := by omega
    have hcount : layout.paddedWidth * layout.paddedHeight = groups * (32 * pages * 4) * 64 := by
      rw [hgroups, hpages]
      ring
    rw [hquotient, hcount, show layout.paddedWidth = groups * 4 * 8 by omega,
      show layout.paddedHeight = 32 * pages * 8 by omega]
    exact horder

end Rgba8TextureLayout

/-! ### Offsets -/

theorem and_three (x : Nat) : x &&& (4 - 1) = x % 4 := and_two_pow_sub_one_eq_mod x 2

theorem and_four (x : Nat) : x &&& 4 ≠ 0 ↔ x / 4 % 2 = 1 := by
  have hbit := and_two_pow x 2
  rw [testBit_eq_decide_div_mod_eq] at hbit
  change x &&& 4 = _ at hbit
  rw [hbit]
  by_cases hodd : x / 4 % 2 = 1
  · simp [hodd]
  · simp [hodd]

theorem utilePixelOffset_eq {x y : Nat} (hx : x < 4) (hy : y < 4) :
    utilePixelOffset x y = pure (4 * utileIndex x y) := by
  unfold utilePixelOffset utileIndex
  simp only [utileWidth, rgba8BytesPerPixel]
  rw [mul32_eq (by omega), pure_bind, add32_eq (by omega), pure_bind, mul32_eq (by omega), Nat.mul_comm]

theorem uifPixelOffset_eq {block : Nat} (hblock : block + 256 < 2 ^ 32) (x y : Nat) :
    uifPixelOffset block x y = pure (block + 4 * uifBlockIndex (x % 8) (y % 8)) := by
  have hx : (if x &&& 4 ≠ 0 then 64 else 0) = x % 8 / 4 * 64 := by
    by_cases hodd : x / 4 % 2 = 1
    · rw [if_pos ((and_four x).2 hodd)]
      omega
    · rw [if_neg fun hbit => hodd ((and_four x).1 hbit)]
      omega
  have hy : (if y &&& 4 ≠ 0 then 128 else 0) = y % 8 / 4 * 128 := by
    by_cases hodd : y / 4 % 2 = 1
    · rw [if_pos ((and_four y).2 hodd)]
      omega
    · rw [if_neg fun hbit => hodd ((and_four y).1 hbit)]
      omega
  have hpixel := utilePixelOffset_eq (mod_lt x (show 4 > 0 by decide)) (mod_lt y (show 4 > 0 by decide))
  unfold uifPixelOffset
  rw [hx, hy, and_three, and_three, add32_eq (by omega), pure_bind, add32_eq (by omega), pure_bind, hpixel, pure_bind]
  unfold uifBlockIndex utileIndex
  rw [add32_eq (by omega)]
  congr 1
  omega

namespace Rgba8TextureLayout

variable {layout : Rgba8TextureLayout} {x y : Nat}

theorem Sound.pixelIndex_lt (h : layout.Sound) (hx : x < layout.paddedWidth) (hy : y < layout.paddedHeight) :
    layout.pixelIndex x y < layout.paddedWidth * layout.paddedHeight ∧ layout.pixelIndex x y < 2 ^ 29 := by
  have hindex := (h.order.reaches x y hx hy).1
  have hcount : layout.paddedWidth * layout.paddedHeight ≤ 2 ^ 14 * 2 ^ 15 := Nat.mul_le_mul h.widthBound h.heightBound
  exact ⟨hindex, Nat.lt_of_lt_of_le hindex hcount⟩

theorem linearTile_offset (h : layout.Sound) (htiling : layout.tiling = .linearTile) (hx : x < layout.paddedWidth)
    (hy : y < layout.paddedHeight) : tilingPixelOffset layout x y = pure (some (4 * layout.pixelIndex x y)) := by
  have hsmall := (h.pixelIndex_lt hx hy).2
  have hshape := h.shape
  rw [htiling] at hshape
  obtain ⟨hcolumns, hrows, hone⟩ := hshape
  have hindex : y / 4 * (layout.paddedWidth / 4) + x / 4 = x / 4 + y / 4 := by
    rcases hone with hcolumn | hrow
    · rw [hcolumn]
      omega
    · have htop : y / 4 = 0 := by omega
      rw [htop]
      omega
  have hpixel := utilePixelOffset_eq (mod_lt x (show 4 > 0 by decide)) (mod_lt y (show 4 > 0 by decide))
  unfold pixelIndex at hsmall ⊢
  rw [htiling] at hsmall ⊢
  dsimp only at hsmall ⊢
  unfold tilingPixelOffset
  rw [htiling]
  simp only [utileWidth, utileHeight]
  rw [if_neg (by omega), add32_eq (by omega), pure_bind, mul32_eq (by omega), pure_bind, and_three, and_three, hpixel,
    pure_bind, add32_eq (by omega), pure_bind]
  congr 2
  omega

theorem ubLinear_offset (h : layout.Sound) (htiling : layout.tiling = .ubLinear1 ∨ layout.tiling = .ubLinear2)
    (hx : x < layout.paddedWidth) (hy : y < layout.paddedHeight) :
    tilingPixelOffset layout x y = pure (some (4 * layout.pixelIndex x y)) := by
  have hsmall := (h.pixelIndex_lt hx hy).2
  unfold pixelIndex at hsmall ⊢
  unfold tilingPixelOffset
  rcases htiling with hone | htwo
  · rw [hone] at hsmall ⊢
    simp only [uifBlockWidth, uifBlockHeight, utileWidth, utileHeight, uifBlockBytes, if_true] at hsmall ⊢
    rw [mul32_eq (by omega), pure_bind, add32_eq (by omega), pure_bind, mul32_eq (by omega), pure_bind,
      uifPixelOffset_eq (by omega), pure_bind]
    congr 2
    omega
  · rw [htwo] at hsmall ⊢
    simp only [uifBlockWidth, uifBlockHeight, utileWidth, utileHeight, uifBlockBytes, reduceCtorEq, if_false]
      at hsmall ⊢
    rw [mul32_eq (by omega), pure_bind, add32_eq (by omega), pure_bind, mul32_eq (by omega), pure_bind,
      uifPixelOffset_eq (by omega), pure_bind]
    congr 2
    omega

theorem blockId_eq {rows : Nat} (tiling : Rgba8TextureTiling) (hrows : 0 < rows) (blockX blockY : Nat) :
    blockX / 4 * ((rows - 1) * 4) + blockX + logicalRow tiling (blockX / 4) blockY * 4 =
      uifIndex tiling rows blockX blockY := by
  obtain ⟨last, rfl⟩ := exists_eq_succ_of_ne_zero (Nat.ne_of_gt hrows)
  have hsplit : blockX / 4 * ((last + 1) * 4) = blockX / 4 * (last * 4) + blockX / 4 * 4 := by ring
  unfold uifIndex
  rw [succ_eq_add_one, Nat.add_sub_cancel, hsplit]
  omega

theorem uif_offset (h : layout.Sound) (htiling : layout.tiling = .uifNoXor ∨ layout.tiling = .uifXor)
    (hx : x < layout.paddedWidth) (hy : y < layout.paddedHeight) :
    tilingPixelOffset layout x y = pure (some (4 * layout.pixelIndex x y)) := by
  have hsmall := (h.pixelIndex_lt hx hy).2
  have hrows : 0 < layout.paddedHeight / 8 := by
    have hshape := h.shape
    rcases htiling with hnoXor | hxor
    · rw [hnoXor] at hshape
      omega
    · rw [hxor] at hshape
      omega
  have hpixel : layout.pixelIndex x y =
      uifIndex layout.tiling (layout.paddedHeight / 8) (x / 8) (y / 8) * 64 + uifBlockIndex (x % 8) (y % 8) := by
    unfold pixelIndex
    rcases htiling with hnoXor | hxor
    · rw [hnoXor]
    · rw [hxor]
  have hblock := blockId_eq layout.tiling hrows (x / 8) (y / 8)
  have htotal : tilingPixelOffset layout x y = (do
      let lastRow ← sub32 (layout.paddedHeight / 8) 1
      let columnBlocks ← mul32 lastRow 4
      let column ← mul32 (x / 8 / 4) columnBlocks
      let inRow ← add32 column (x / 8)
      let rows ← mul32 (logicalRow layout.tiling (x / 8 / 4) (y / 8)) 4
      let blockId ← add32 inRow rows
      let block ← mul32 blockId 256
      return some (← uifPixelOffset block x y)) := by
    unfold tilingPixelOffset
    rcases htiling with hnoXor | hxor
    · rw [hnoXor]
      rfl
    · rw [hxor]
      rfl
  have hheight := h.heightBound
  rw [htotal, sub32_eq (by omega) (by omega), pure_bind, mul32_eq (by omega), pure_bind, mul32_eq (by omega), pure_bind,
    add32_eq (by omega), pure_bind, mul32_eq (by omega), pure_bind, add32_eq (by omega), pure_bind, hblock,
    mul32_eq (by omega), pure_bind, uifPixelOffset_eq (by omega), pure_bind]
  congr 2
  omega

theorem Sound.offset (h : layout.Sound) (hx : x < layout.width) (hy : y < layout.height) :
    rgba8TexturePixelOffset layout x y = pure (some (4 * layout.pixelIndex x y)) := by
  have hx' := Nat.lt_of_lt_of_le hx h.paddedWidth
  have hy' := Nat.lt_of_lt_of_le hy h.paddedHeight
  have hindex := (h.pixelIndex_lt hx' hy').1
  have hwidth := h.paddedWidth
  have hheight := h.paddedHeight
  have hsize : layout.sizeBytes = 4 * (layout.paddedWidth * layout.paddedHeight) := by
    rw [h.sizeBytes]
    ring
  have hbound := h.sizeBound
  have htiling : tilingPixelOffset layout x y = pure (some (4 * layout.pixelIndex x y)) := by
    cases hcase : layout.tiling with
    | linearTile => exact linearTile_offset h hcase hx' hy'
    | ubLinear1 => exact ubLinear_offset h (.inl hcase) hx' hy'
    | ubLinear2 => exact ubLinear_offset h (.inr hcase) hx' hy'
    | uifNoXor => exact uif_offset h (.inl hcase) hx' hy'
    | uifXor => exact uif_offset h (.inr hcase) hx' hy'
  unfold rgba8TexturePixelOffset
  simp only [rgba8BytesPerPixel]
  rw [if_neg (by omega), htiling, pure_bind]
  dsimp only
  rw [sub32_eq (by omega) hbound, pure_bind, if_neg (by omega)]

end Rgba8TextureLayout

end Bmx.Graphics
