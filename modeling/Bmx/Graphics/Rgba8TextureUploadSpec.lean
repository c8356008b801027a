import Bmx.Graphics.Rgba8PixelOrder

/-!
# What the uploader writes

The uploader writes the words of a texture in the order of their places. Each holds the pixel of its
place, or zero where the image has none.
-/

namespace Bmx.Graphics

open Rgba8TextureLayout List Nat

/-! ### Words in memory -/

section

variable {destination : Nat → UInt8} {offset : Nat}

theorem copyWords_first (values : Nat → UInt32) (first count : Nat) :
    copyWords destination offset values first count =
      copyWords destination offset (fun word => values (first + word)) 0 count := by
  funext place
  simp [copyWords]

theorem copyWords_congr {values values' : Nat → UInt32} {count : Nat} (h : ∀ word, word < count → values word = values' word) :
    copyWords destination offset values 0 count = copyWords destination offset values' 0 count := by
  funext place
  unfold copyWords
  by_cases hinside : offset ≤ place ∧ place < offset + 4 * count
  · rw [if_pos hinside, if_pos hinside, h _ (by omega)]
  · rw [if_neg hinside, if_neg hinside]

theorem copyWords_extend (values : Nat → UInt32) (count more : Nat) :
    copyWords (copyWords destination offset values 0 count) (offset + 4 * count) (fun word => values (count + word)) 0
      more = copyWords destination offset values 0 (count + more) := by
  funext place
  unfold copyWords
  by_cases hlater : offset + 4 * count ≤ place ∧ place < offset + 4 * count + 4 * more
  · have hword : count + (0 + (place - (offset + 4 * count)) / 4) = 0 + (place - offset) / 4 := by omega
    have hbyte : (place - (offset + 4 * count)) % 4 = (place - offset) % 4 := by omega
    rw [if_pos hlater, if_pos (by omega), hbyte]
    dsimp only
    rw [hword]
  · rw [if_neg hlater]
    by_cases hfirst : offset ≤ place ∧ place < offset + 4 * count
    · rw [if_pos hfirst, if_pos (by omega)]
    · rw [if_neg hfirst, if_neg (by omega)]

/-- The words of a tile, whose lines are apart in `lines`. -/
theorem writeUtileValues_eq {lines : Nat → UInt32} {first strideWords : Nat} {values : Nat → UInt32}
    (hstride : strideWords ≤ 8)
    (hvalues : ∀ y x, y < 4 → x < 4 → lines (first + (y * strideWords + x)) = values (4 * y + x)) :
    writeUtileValues destination offset lines first strideWords = pure (copyWords destination offset values 0 16) := by
  have hline : ∀ (d : Nat → UInt8) (y : Nat), y < 4 → (do
      let row ← mul32 y utileWidth
      let rowBytes ← mul32 row rgba8BytesPerPixel
      let line ← mul32 y strideWords
      return copyWords d (offset + rowBytes) lines (first + line) utileWidth : Wrapping (Nat → UInt8)) =
        pure (copyWords d (offset + 4 * (4 * y)) (fun word => values (4 * y + word)) 0 4) := by
    intro d y hy
    have hproduct : y * strideWords ≤ 3 * 8 := Nat.mul_le_mul (by omega) hstride
    have hplace : offset + y * 4 * 4 = offset + 4 * (4 * y) := by omega
    simp only [utileWidth, rgba8BytesPerPixel]
    rw [mul32_eq (by omega), pure_bind, mul32_eq (by omega), pure_bind, mul32_eq (by omega), pure_bind, copyWords_first,
      hplace]
    congr 1
    apply copyWords_congr
    intro x hx
    rw [Nat.add_assoc]
    exact hvalues y x hy hx
  have hrange : List.range utileHeight = [0, 1, 2, 3] := rfl
  have hfirst : copyWords destination (offset + 4 * (4 * 0)) (fun word => values (4 * 0 + word)) 0 4 =
      copyWords destination offset values 0 4 := by
    simp only [Nat.mul_zero, Nat.add_zero, Nat.zero_add]
  unfold writeUtileValues
  rw [hrange, foldlM_cons, hline _ 0 (by decide), pure_bind, hfirst, foldlM_cons, hline _ 1 (by decide),
    pure_bind, copyWords_extend values (4 * 1) 4, foldlM_cons, hline _ 2 (by decide), pure_bind,
    copyWords_extend values (4 * 2) 4, foldlM_cons, hline _ 3 (by decide), pure_bind,
    copyWords_extend values (4 * 3) 4, foldlM_nil]

end

/-! ### Regions -/

/-- The source supplies the regions of an image, and leaves the other values alone. -/
def Supplies (source : Rgba8TextureRegionSource) (image : Nat → Nat → UInt32) (imageWidth imageHeight : Nat) : Prop :=
  ∀ (originX originY width height : Nat) (values : Nat → UInt32) (strideWords : Nat),
    width ≠ 0 → height ≠ 0 → originX + width ≤ imageWidth → originY + height ≤ imageHeight → width ≤ strideWords →
      source originX originY width height values strideWords =
        (true, fun i =>
          if i % strideWords < width ∧ i / strideWords < height then
            image (originX + i % strideWords) (originY + i / strideWords)
          else values i)

def Rgba8TextureLayout.paddedPixel (layout : Rgba8TextureLayout) (image : Nat → Nat → UInt32) (x y : Nat) : UInt32 :=
  if x < layout.width ∧ y < layout.height then image x y else 0

variable {layout : Rgba8TextureLayout} {source : Rgba8TextureRegionSource} {image : Nat → Nat → UInt32}

theorem validRegionExtent_eq {origin logicalExtent regionExtent : Nat} (hlogical : logicalExtent < 2 ^ 32) :
    validRegionExtent origin logicalExtent regionExtent = pure (min (logicalExtent - origin) regionExtent) := by
  unfold validRegionExtent
  split
  · rename_i houtside
    have hnone : logicalExtent - origin = 0 := by omega
    rw [hnone, Nat.zero_min]
  · rw [sub32_eq (by omega) hlogical, pure_bind]
    congr 1
    split <;> omega

theorem readRegion_eq (h : layout.Sound) (hsource : Supplies source image layout.width layout.height)
    (originX originY : Nat) {regionWidth : Nat} (regionHeight : Nat) (hregion : 0 < regionWidth) :
    ∃ values, readRegion layout source originX originY regionWidth regionHeight = pure (true, values) ∧
      ∀ y x, y < regionHeight → x < regionWidth →
        values (y * regionWidth + x) = layout.paddedPixel image (originX + x) (originY + y) := by
  have hwidth : layout.width < 2 ^ 32 := by
    have hpadded := h.paddedWidth
    have hbound := h.widthBound
    omega
  have hheight : layout.height < 2 ^ 32 := by
    have hpadded := h.paddedHeight
    have hbound := h.heightBound
    omega
  unfold readRegion
  rw [validRegionExtent_eq hwidth, pure_bind, validRegionExtent_eq hheight, pure_bind]
  by_cases hsome : min (layout.width - originX) regionWidth ≠ 0 ∧ min (layout.height - originY) regionHeight ≠ 0
  · rw [if_pos hsome, hsource _ _ _ _ _ _ hsome.1 hsome.2 (by omega) (by omega) (by omega)]
    refine ⟨_, rfl, ?_⟩
    intro y x hy hx
    have hcolumn : (y * regionWidth + x) % regionWidth = x := by
      rw [Nat.add_comm, add_mul_mod_self_right, mod_eq_of_lt hx]
    have hrow : (y * regionWidth + x) / regionWidth = y := by
      rw [Nat.add_comm, add_mul_div_right _ _ hregion, div_eq_of_lt hx, Nat.zero_add]
    rw [hcolumn, hrow]
    unfold paddedPixel
    by_cases hinside : originX + x < layout.width ∧ originY + y < layout.height
    · rw [if_pos hinside, if_pos (by omega)]
    · rw [if_neg hinside, if_neg (by omega)]
  · rw [if_neg hsome]
    refine ⟨_, rfl, ?_⟩
    intro y x hy hx
    unfold paddedPixel
    rw [if_neg (by omega)]

/-! ### Tiles, blocks and loops -/

theorem uploadUtile_eq (h : layout.Sound) (hsource : Supplies source image layout.width layout.height)
    (originX originY : Nat) (u : TextureUpload) :
    uploadUtile layout source originX originY u = pure (true,
      { destination := copyWords u.destination u.output (fun word =>
          layout.paddedPixel image (originX + (utilePlace word).1) (originY + (utilePlace word).2)) 0 16
        output := u.output + 4 * 16 }) := by
  obtain ⟨values, hread, hvalues⟩ := readRegion_eq h hsource originX originY 4 (show 0 < 4 by decide)
  have hwritten : writeUtileValues u.destination u.output values 0 4 = pure (copyWords u.destination u.output
      (fun word => layout.paddedPixel image (originX + (utilePlace word).1) (originY + (utilePlace word).2)) 0 16) := by
    apply writeUtileValues_eq (by decide)
    intro y x hy hx
    have hcolumn : (4 * y + x) % 4 = x := by omega
    have hrow : (4 * y + x) / 4 = y := by omega
    rw [Nat.zero_add, hvalues y x hy hx]
    unfold utilePlace
    rw [hcolumn, hrow]
  unfold uploadUtile
  rw [hread, pure_bind]
  dsimp only
  rw [if_neg (by decide), hwritten, pure_bind]

theorem writeBlockTile_eq {values : Nat → UInt32} {originX originY : Nat}
    (hvalues : ∀ y x, y < 8 → x < 8 → values (y * 8 + x) = layout.paddedPixel image (originX + x) (originY + y))
    {tile : Nat} (htile : tile < 4) (destination : Nat → UInt8) (output : Nat) :
    writeUtileValues destination output values (tile / 2 * 32 + tile % 2 * 4) 8 =
      pure (copyWords destination output (fun word =>
        layout.paddedPixel image (originX + (uifBlockPlace (16 * tile + word)).1)
          (originY + (uifBlockPlace (16 * tile + word)).2)) 0 16) := by
  apply writeUtileValues_eq (by decide)
  intro y x hy hx
  have hplace : uifBlockPlace (16 * tile + (4 * y + x)) = (tile % 2 * 4 + x, tile / 2 * 4 + y) := by
    unfold uifBlockPlace utilePlace
    congr 1 <;> omega
  have hline := hvalues (tile / 2 * 4 + y) (tile % 2 * 4 + x) (by omega) (by omega)
  rw [hplace, ← hline]
  congr 1
  omega

theorem uploadUifBlock_eq (h : layout.Sound) (hsource : Supplies source image layout.width layout.height)
    (originX originY : Nat) (u : TextureUpload) :
    uploadUifBlock layout source originX originY u = pure (true,
      { destination := copyWords u.destination u.output (fun word =>
          layout.paddedPixel image (originX + (uifBlockPlace word).1) (originY + (uifBlockPlace word).2)) 0 64
        output := u.output + 4 * 64 }) := by
  obtain ⟨values, hread, hvalues⟩ := readRegion_eq h hsource originX originY 8 (show 0 < 8 by decide)
  let pixels : Nat → UInt32 := fun word =>
    layout.paddedPixel image (originX + (uifBlockPlace word).1) (originY + (uifBlockPlace word).2)
  have hfirst : ∀ d, writeUtileValues d u.output values 0 8 = pure (copyWords d u.output pixels 0 16) := by
    intro d
    have hwritten := writeBlockTile_eq hvalues (show 0 < 4 by decide) d u.output
    simpa [pixels] using hwritten
  have hsecond : ∀ d, writeUtileValues d (u.output + 64) values 4 8 =
      pure (copyWords d (u.output + 4 * 16) (fun word => pixels (16 + word)) 0 16) := fun d =>
    writeBlockTile_eq hvalues (show 1 < 4 by decide) d (u.output + 64)
  have hthird : ∀ d, writeUtileValues d (u.output + 128) values 32 8 =
      pure (copyWords d (u.output + 4 * 32) (fun word => pixels (32 + word)) 0 16) := fun d =>
    writeBlockTile_eq hvalues (show 2 < 4 by decide) d (u.output + 128)
  have hfourth : ∀ d, writeUtileValues d (u.output + 192) values 36 8 =
      pure (copyWords d (u.output + 4 * 48) (fun word => pixels (48 + word)) 0 16) := fun d =>
    writeBlockTile_eq hvalues (show 3 < 4 by decide) d (u.output + 192)
  unfold uploadUifBlock
  simp only [uifBlockWidth, uifBlockHeight, utileWidth, utileHeight, uifBlockBytes]
  rw [hread, pure_bind]
  dsimp only
  rw [if_neg (by decide), hfirst, pure_bind, hsecond, pure_bind, copyWords_extend pixels 16 16, hthird, pure_bind,
    copyWords_extend pixels 32 16, hfourth, pure_bind, copyWords_extend pixels 48 16]

theorem uploadLoop_eq {β : Type} {body : β → TextureUpload → Wrapping (Bool × TextureUpload)} {places : List β}
    (size : Nat) (values : Nat → UInt32) (destination : Nat → UInt8)
    (hbody : ∀ i place, places[i]? = some place → ∀ u : TextureUpload, body place u = pure (true,
      { destination := copyWords u.destination u.output (fun word => values (size * i + word)) 0 size
        output := u.output + 4 * size })) :
    uploadLoop body places { destination := destination, output := 0 } = pure (true,
      { destination := copyWords destination 0 values 0 (size * places.length), output := 4 * (size * places.length) }) := by
  have hrest : ∀ (rest : List β) (i : Nat), places.drop i = rest → i + rest.length = places.length →
      uploadLoop body rest
        { destination := copyWords destination 0 values 0 (size * i), output := 0 + 4 * (size * i) } = pure (true,
          { destination := copyWords destination 0 values 0 (size * places.length)
            output := 0 + 4 * (size * places.length) }) := by
    intro rest
    induction rest with
    | nil =>
      intro i hdrop hlength
      rw [length_nil, Nat.add_zero] at hlength
      rw [hlength]
      rfl
    | cons place rest ih =>
      intro i hdrop hlength
      have hplace : places[i]? = some place := by
        rw [← head?_drop, hdrop, head?_cons]
      have hnext : places.drop (i + 1) = rest := by
        rw [← drop_drop, hdrop]
        rfl
      have hcount : size * i + size = size * (i + 1) := by ring
      have houtput : 0 + 4 * (size * i) + 4 * size = 0 + 4 * (size * (i + 1)) := by ring
      unfold uploadLoop
      rw [hbody i place hplace, pure_bind]
      dsimp only
      rw [if_neg (by decide), copyWords_extend, hcount, houtput]
      exact ih (i + 1) hnext (by rw [length_cons] at hlength; omega)
  have hall := hrest places 0 rfl (Nat.zero_add _)
  have hempty : copyWords destination 0 values 0 0 = destination := by
    funext place
    exact if_neg (by omega)
  rw [Nat.mul_zero, hempty] at hall
  simpa using hall

theorem length_nestedPlaces (outer inner : Nat) : (nestedPlaces outer inner).length = outer * inner := by
  simp [nestedPlaces, length_flatMap]

theorem nestedPlaces_eq {outer inner i : Nat} {place : Nat × Nat} (h : (nestedPlaces outer inner)[i]? = some place) :
    i < outer * inner ∧ place = (i / inner, i % inner) := by
  have hi : i < outer * inner := by
    have hlength := (List.getElem?_eq_some_iff.1 h).1
    rwa [length_nestedPlaces] at hlength
  have hinner : 0 < inner := Nat.pos_of_ne_zero fun hnone => by simp [hnone] at hi
  have hat : (nestedPlaces outer inner)[i]? = some (i / inner, i % inner) := by
    unfold nestedPlaces
    rw [getElem?_flatMap_range (fun _ => by rw [length_map, length_range]) hi, getElem?_map,
      getElem?_range (mod_lt i hinner)]
    rfl
  rw [hat] at h
  exact ⟨hi, (Option.some.inj h).symm⟩

namespace Rgba8TextureLayout

def placedPixel (layout : Rgba8TextureLayout) (image : Nat → Nat → UInt32) (i : Nat) : UInt32 :=
  layout.paddedPixel image (layout.pixelPlace i).1 (layout.pixelPlace i).2

/-- Everything is written. -/
def uploaded (layout : Rgba8TextureLayout) (image : Nat → Nat → UInt32) (destination : Nat → UInt8) : TextureUpload where
  destination := copyWords destination 0 (layout.placedPixel image) 0 (layout.paddedWidth * layout.paddedHeight)
  output := 4 * (layout.paddedWidth * layout.paddedHeight)

end Rgba8TextureLayout

theorem uploadLinearTile_eq (h : layout.Sound) (htiling : layout.tiling = .linearTile)
    (hsource : Supplies source image layout.width layout.height) (destination : Nat → UInt8) :
    uploadLinearTile layout source { destination := destination, output := 0 } =
      pure (true, layout.uploaded image destination) := by
  have hshape := h.shape
  rw [htiling] at hshape
  obtain ⟨⟨columns, hcolumns⟩, ⟨rows, hrows⟩, -⟩ := hshape
  have hwidth := h.widthBound
  have hheight := h.heightBound
  have hacross : layout.paddedWidth / 4 = columns := by omega
  have hdown : layout.paddedHeight / 4 = rows := by omega
  unfold uploadLinearTile
  simp only [utileWidth, utileHeight, hacross, hdown]
  rw [uploadLoop_eq 16 (layout.placedPixel image) destination]
  · have hcount : 16 * (nestedPlaces rows columns).length = layout.paddedWidth * layout.paddedHeight := by
      rw [length_nestedPlaces, hcolumns, hrows]
      ring
    rw [hcount]
    rfl
  · intro i place hplace u
    obtain ⟨hi, rfl⟩ := nestedPlaces_eq hplace
    have hpositive : 0 < columns := by
      have hpadded := Nat.lt_of_lt_of_le h.width h.paddedWidth
      omega
    have hcolumn := mod_lt i hpositive
    have hrow : i / columns < rows := Nat.div_lt_of_lt_mul (by rwa [Nat.mul_comm])
    rw [mul32_eq (by omega), pure_bind, mul32_eq (by omega), pure_bind, uploadUtile_eq h hsource]
    congr 3
    apply copyWords_congr
    intro word hword
    have hblock : (16 * i + word) / 16 = i := by omega
    have hinside : (16 * i + word) % 16 = word := by omega
    unfold placedPixel pixelPlace
    rw [htiling]
    rw [hacross, hblock, hinside]

theorem uploadUbLinear_eq (h : layout.Sound) {columns : Nat}
    (htiling : layout.tiling = .ubLinear1 ∧ columns = 1 ∨ layout.tiling = .ubLinear2 ∧ columns = 2)
    (hsource : Supplies source image layout.width layout.height) (destination : Nat → UInt8) :
    uploadUbLinear layout source { destination := destination, output := 0 } =
      pure (true, layout.uploaded image destination) := by
  have hcode : (if layout.tiling = .ubLinear1 then 1 else 2) = columns := by
    rcases htiling with ⟨hone, rfl⟩ | ⟨htwo, rfl⟩
    · rw [if_pos hone]
    · rw [htwo, if_neg (by decide)]
  have hpositive : 0 < columns ∧ columns ≤ 2 := by omega
  have hsize : layout.paddedWidth = columns * 8 ∧ 8 ∣ layout.paddedHeight := by
    have hshape := h.shape
    rcases htiling with ⟨hone, rfl⟩ | ⟨htwo, rfl⟩
    · rw [hone] at hshape
      exact hshape
    · rw [htwo] at hshape
      exact hshape
  have hplaced : ∀ i word, word < 64 → layout.placedPixel image (64 * i + word) =
      layout.paddedPixel image (i % columns * 8 + (uifBlockPlace word).1) (i / columns * 8 + (uifBlockPlace word).2) := by
    intro i word hword
    have hblock : (64 * i + word) / 64 = i := by omega
    have hinside : (64 * i + word) % 64 = word := by omega
    unfold placedPixel pixelPlace
    rcases htiling with ⟨hone, rfl⟩ | ⟨htwo, rfl⟩
    · rw [hone]
      rw [hblock, hinside]
    · rw [htwo]
      rw [hblock, hinside]
  obtain ⟨hwidth, ⟨rows, hrows⟩⟩ := hsize
  have hheight := h.heightBound
  have hdown : layout.paddedHeight / 8 = rows := by omega
  unfold uploadUbLinear
  simp only [uifBlockWidth, uifBlockHeight, utileWidth, utileHeight, hcode, hdown]
  rw [uploadLoop_eq 64 (layout.placedPixel image) destination]
  · have hcount : 64 * (nestedPlaces rows columns).length = layout.paddedWidth * layout.paddedHeight := by
      rw [length_nestedPlaces, hwidth, hrows]
      ring
    rw [hcount]
    rfl
  · intro i place hplace u
    obtain ⟨hi, rfl⟩ := nestedPlaces_eq hplace
    have hcolumn := mod_lt i hpositive.1
    have hrow : i / columns < rows := Nat.div_lt_of_lt_mul (by rwa [Nat.mul_comm])
    rw [mul32_eq (by omega), pure_bind, mul32_eq (by omega), pure_bind, uploadUifBlock_eq h hsource]
    congr 3
    apply copyWords_congr
    intro word hword
    exact (hplaced i word hword).symm

theorem length_uifPlaces (groups rows : Nat) :
    ((List.range groups).flatMap fun group =>
      (nestedPlaces rows 4).map fun place => (group, place)).length = groups * (rows * 4) := by
  simp [length_flatMap, length_nestedPlaces]

theorem uifPlaces_eq {groups rows i : Nat} {place : Nat × Nat × Nat}
    (h : ((List.range groups).flatMap fun group =>
      (nestedPlaces rows 4).map fun place => (group, place))[i]? = some place) :
    i < groups * (rows * 4) ∧ place = (i / (rows * 4), i % (rows * 4) / 4, i % (rows * 4) % 4) := by
  have hlength : ∀ group : Nat, ((nestedPlaces rows 4).map fun place => (group, place)).length = rows * 4 := by
    intro group
    rw [length_map, length_nestedPlaces]
  have hi : i < groups * (rows * 4) := by
    have hbound := (List.getElem?_eq_some_iff.1 h).1
    rwa [length_uifPlaces] at hbound
  rw [getElem?_flatMap_range hlength hi, getElem?_map] at h
  obtain ⟨inner, hinner, rfl⟩ := Option.map_eq_some_iff.1 h
  obtain ⟨-, rfl⟩ := nestedPlaces_eq hinner
  exact ⟨hi, rfl⟩

theorem uploadUif_eq (h : layout.Sound) (htiling : layout.tiling = .uifNoXor ∨ layout.tiling = .uifXor)
    (hsource : Supplies source image layout.width layout.height) (destination : Nat → UInt8) :
    uploadUif layout source { destination := destination, output := 0 } =
      pure (true, layout.uploaded image destination) := by
  have hsize : 32 ∣ layout.paddedWidth ∧ 8 ∣ layout.paddedHeight ∧ (layout.tiling = .uifXor → 32 ∣ layout.paddedHeight / 8) := by
    have hshape := h.shape
    rcases htiling with hnoXor | hxor
    · rw [hnoXor] at hshape
      exact ⟨hshape.1, hshape.2, fun hxor => absurd (hnoXor.symm.trans hxor) (by decide)⟩
    · rw [hxor] at hshape
      exact ⟨hshape.1, by omega, fun _ => by omega⟩
  obtain ⟨⟨groups, hgroups⟩, ⟨rows, hrows⟩, hpages⟩ := hsize
  have hdown : layout.paddedHeight / 8 = rows := by omega
  have hacross : layout.paddedWidth / 32 = groups := by omega
  have hwidth := h.widthBound
  have hheight := h.heightBound
  rw [hdown] at hpages
  have hplaced : ∀ i word, word < 64 → layout.placedPixel image (64 * i + word) =
      layout.paddedPixel image ((uifPlace layout.tiling rows i).1 * 8 + (uifBlockPlace word).1)
        ((uifPlace layout.tiling rows i).2 * 8 + (uifBlockPlace word).2) := by
    intro i word hword
    have hblock : (64 * i + word) / 64 = i := by omega
    have hinside : (64 * i + word) % 64 = word := by omega
    unfold placedPixel pixelPlace
    rcases htiling with hnoXor | hxor
    · rw [hnoXor]
      rw [hdown, hblock, hinside]
    · rw [hxor]
      rw [hdown, hblock, hinside]
  unfold uploadUif
  simp only [uifBlockWidth, uifBlockHeight, utileWidth, utileHeight, uifBlocksPerColumn, hdown]
  rw [show 4 * (4 * 2) = 32 from rfl, hacross, uploadLoop_eq 64 (layout.placedPixel image) destination]
  · have hcount : 64 * ((List.range groups).flatMap fun group =>
        (nestedPlaces rows 4).map fun place => (group, place)).length = layout.paddedWidth * layout.paddedHeight := by
      rw [length_uifPlaces, hgroups, hrows]
      ring
    rw [hcount]
    rfl
  · intro i place hplace u
    obtain ⟨hi, rfl⟩ := uifPlaces_eq hplace
    have hpositive : 0 < rows := by
      have hpadded := Nat.lt_of_lt_of_le h.height h.paddedHeight
      omega
    have hgroup : i / (rows * 4) < groups := Nat.div_lt_of_lt_mul (by rwa [Nat.mul_comm])
    have hinside : i % (rows * 4) < rows * 4 := mod_lt i (by omega)
    have hrow : logicalRow layout.tiling (i / (rows * 4)) (i % (rows * 4) / 4) < rows :=
      logicalRow_lt hpages (by omega) _
    dsimp only
    rw [mul32_eq (by omega), pure_bind, add32_eq (by omega), pure_bind, mul32_eq (by omega), pure_bind,
      mul32_eq (by omega), pure_bind, uploadUifBlock_eq h hsource]
    congr 3
    apply copyWords_congr
    intro word hword
    exact (hplaced i word hword).symm

/-! ### The whole upload -/

theorem uploaded_done {destination : Nat → UInt8} {upload : Wrapping (Bool × TextureUpload)}
    (hbytes : 4 * (layout.paddedWidth * layout.paddedHeight) = layout.sizeBytes)
    (hupload : upload = pure (true, layout.uploaded image destination)) :
    (do
      let (supplied, u) ← upload
      return (supplied && u.output = layout.sizeBytes, u.destination) : Wrapping (Bool × (Nat → UInt8))) =
      pure (true, copyWords destination 0 (layout.placedPixel image) 0 (layout.paddedWidth * layout.paddedHeight)) := by
  rw [hupload, pure_bind]
  dsimp only [uploaded]
  rw [decide_eq_true hbytes]
  rfl

theorem Rgba8TextureLayout.Sound.upload (h : layout.Sound) (hsource : Supplies source image layout.width layout.height)
    (destination : Nat → UInt8) {destinationSize : Nat} (hsize : layout.sizeBytes ≤ destinationSize) :
    uploadRgba8TexturePhysical destination destinationSize layout source =
      pure (true, copyWords destination 0 (layout.placedPixel image) 0 (layout.paddedWidth * layout.paddedHeight)) := by
  have hbytes : 4 * (layout.paddedWidth * layout.paddedHeight) = layout.sizeBytes := by
    rw [h.sizeBytes]
    ring
  have hpositive : layout.sizeBytes ≠ 0 := by
    have hwidth := Nat.lt_of_lt_of_le h.width h.paddedWidth
    have hheight := Nat.lt_of_lt_of_le h.height h.paddedHeight
    have hproduct := Nat.mul_pos hwidth hheight
    omega
  unfold uploadRgba8TexturePhysical
  rw [if_neg (by omega)]
  cases hcase : layout.tiling with
  | linearTile => exact uploaded_done hbytes (uploadLinearTile_eq h hcase hsource destination)
  | ubLinear1 => exact uploaded_done hbytes (uploadUbLinear_eq h (.inl ⟨hcase, rfl⟩) hsource destination)
  | ubLinear2 => exact uploaded_done hbytes (uploadUbLinear_eq h (.inr ⟨hcase, rfl⟩) hsource destination)
  | uifNoXor => exact uploaded_done hbytes (uploadUif_eq h (.inl hcase) hsource destination)
  | uifXor => exact uploaded_done hbytes (uploadUif_eq h (.inr hcase) hsource destination)

theorem wordByte_zero (k : Nat) : wordByte 0 k = 0 := by
  unfold wordByte
  rw [UInt32.zero_shiftRight]
  rfl

namespace Rgba8TextureLayout

theorem Sound.written_pixel (h : layout.Sound) (destination : Nat → UInt8) {x y k : Nat} (hx : x < layout.width)
    (hy : y < layout.height) (hk : k < 4) :
    copyWords destination 0 (layout.placedPixel image) 0 (layout.paddedWidth * layout.paddedHeight)
      (4 * layout.pixelIndex x y + k) = wordByte (image x y) k := by
  have hplace := h.order.reaches x y (Nat.lt_of_lt_of_le hx h.paddedWidth) (Nat.lt_of_lt_of_le hy h.paddedHeight)
  have hword : 0 + (4 * layout.pixelIndex x y + k - 0) / 4 = layout.pixelIndex x y := by omega
  have hbyte : (4 * layout.pixelIndex x y + k - 0) % 4 = k := by omega
  unfold copyWords
  rw [if_pos (by omega), hword, hbyte]
  unfold placedPixel paddedPixel
  rw [hplace.2, if_pos ⟨hx, hy⟩]

theorem Sound.written_zero (h : layout.Sound) (destination : Nat → UInt8) {i : Nat}
    (hi : i < 4 * (layout.paddedWidth * layout.paddedHeight))
    (hnone : ∀ x y k, x < layout.width → y < layout.height → k < 4 → i ≠ 4 * layout.pixelIndex x y + k) :
    copyWords destination 0 (layout.placedPixel image) 0 (layout.paddedWidth * layout.paddedHeight) i = 0 := by
  have hplace := (h.order.visits (i / 4) (by omega)).2.2
  have hword : 0 + (i - 0) / 4 = i / 4 := by omega
  have houtside : ¬((layout.pixelPlace (i / 4)).1 < layout.width ∧ (layout.pixelPlace (i / 4)).2 < layout.height) := by
    intro hinside
    apply hnone _ _ (i % 4) hinside.1 hinside.2 (by omega)
    omega
  unfold copyWords
  rw [if_pos (by omega), hword]
  unfold placedPixel paddedPixel
  rw [if_neg houtside, wordByte_zero]

end Rgba8TextureLayout

/-- A computed layout gives each pixel bytes of its own, and the uploader puts the pixels there and zeros
everywhere else. Nothing wraps. -/
theorem rgba8TextureLayout_bijection {width height maxArrayStride : Nat} {layout : Rgba8TextureLayout}
    (hlayout : ((computeRgba8TextureLayout width height maxArrayStride).run false).1 = some layout) :
    computeRgba8TextureLayout width height maxArrayStride = pure (some layout) ∧
      ∃ offset : Nat → Nat → Nat,
        (∀ x y, x < width → y < height →
          rgba8TexturePixelOffset layout x y = pure (some (offset x y)) ∧ 4 ∣ offset x y ∧
            offset x y + 4 ≤ layout.sizeBytes) ∧
        (∀ x y x' y', x < width → y < height → x' < width → y' < height → offset x y = offset x' y' →
          x = x' ∧ y = y') ∧
        ∀ (source : Rgba8TextureRegionSource) (image : Nat → Nat → UInt32), Supplies source image width height →
          ∀ (destination : Nat → UInt8) (destinationSize : Nat), layout.sizeBytes ≤ destinationSize →
            ∃ written, uploadRgba8TexturePhysical destination destinationSize layout source = pure (true, written) ∧
              (∀ i, layout.sizeBytes ≤ i → written i = destination i) ∧
              (∀ x y k, x < width → y < height → k < 4 → written (offset x y + k) = wordByte (image x y) k) ∧
              ∀ i, i < layout.sizeBytes →
                (∀ x y k, x < width → y < height → k < 4 → i ≠ offset x y + k) → written i = 0 := by
  obtain ⟨result, hcompute, hsound⟩ := computeRgba8TextureLayout_eq width height maxArrayStride
  have hresult : result = some layout := by
    rw [hcompute] at hlayout
    exact hlayout
  obtain ⟨h, rfl, rfl⟩ := hsound layout hresult
  have hbytes : layout.sizeBytes = 4 * (layout.paddedWidth * layout.paddedHeight) := by
    rw [h.sizeBytes]
    ring
  have hinside : ∀ {x y}, x < layout.width → y < layout.height →
      x < layout.paddedWidth ∧ y < layout.paddedHeight := fun hx hy =>
    ⟨Nat.lt_of_lt_of_le hx h.paddedWidth, Nat.lt_of_lt_of_le hy h.paddedHeight⟩
  refine ⟨by rw [hcompute, hresult], fun x y => 4 * layout.pixelIndex x y, ?_, ?_, ?_⟩
  · intro x y hx hy
    have hindex := (h.pixelIndex_lt (hinside hx hy).1 (hinside hx hy).2).1
    have hend : 4 * layout.pixelIndex x y + 4 ≤ layout.sizeBytes := by omega
    exact ⟨h.offset hx hy, Nat.dvd_mul_right 4 _, hend⟩
  · intro x y x' y' hx hy hx' hy' hsame
    have hindex : layout.pixelIndex x y = layout.pixelIndex x' y' := Nat.eq_of_mul_eq_mul_left (by decide) hsame
    exact h.order.injective (hinside hx hy).1 (hinside hx hy).2 (hinside hx' hy').1 (hinside hx' hy').2 hindex
  · intro source image hsource destination destinationSize hsize
    refine ⟨_, h.upload hsource destination hsize, ?_, ?_, ?_⟩
    · intro i hi
      unfold copyWords
      rw [if_neg (by omega)]
    · intro x y k hx hy hk
      exact h.written_pixel destination hx hy hk
    · intro i hi hnone
      exact h.written_zero destination (by omega) hnone

def countingSource : Rgba8TextureRegionSource := fun originX originY width height values strideWords =>
  (true, fun i =>
    if i % strideWords < width ∧ i / strideWords < height then
      UInt32.ofNat (100 * (originY + i / strideWords) + (originX + i % strideWords))
    else values i)

theorem smallLayout_bijection :
    ∃ layout written offset,
      computeRgba8TextureLayout 17 9 64 = pure (some layout) ∧ layout.tiling = .uifNoXor ∧
        rgba8TexturePixelOffset layout 16 8 = pure (some offset) ∧ offset + 4 ≤ layout.sizeBytes ∧
          uploadRgba8TexturePhysical (fun _ => 255) 4096 layout countingSource = pure (true, written) ∧
            written offset = wordByte (UInt32.ofNat 816) 0 := by
  have hcompute : ∃ layout, ((computeRgba8TextureLayout 17 9 64).run false).1 = some layout ∧
      layout.tiling = .uifNoXor ∧ layout.sizeBytes ≤ 4096 := by
    decide
  obtain ⟨layout, hlayout, htiling, hsize⟩ := hcompute
  obtain ⟨hpure, offset, hoffset, -, hupload⟩ := rgba8TextureLayout_bijection hlayout
  obtain ⟨written, hwritten, -, hpixel, -⟩ := hupload countingSource
    (fun x y => UInt32.ofNat (100 * y + x)) (fun _ _ _ _ _ _ _ _ _ _ _ => rfl) (fun _ => 255) 4096 hsize
  obtain ⟨hplace, -, hend⟩ := hoffset 16 8 (by decide) (by decide)
  exact ⟨layout, written, offset 16 8, hpure, htiling, hplace, hend, hwritten,
    hpixel 16 8 0 (by decide) (by decide) (by decide)⟩

end Bmx.Graphics
