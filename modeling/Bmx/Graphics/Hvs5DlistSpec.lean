import Bmx.Graphics.Hvs5Dlist

/-!
# Display lists that were built

A list that was built is made of the words of its planes and of the end word. The inspector walks over any array without
leaving it, and finds the planes of a list that was built.
-/

namespace Bmx.Graphics

open List Option

/-! ### The words of a list -/

variable {capacity : Nat} {displayWidth displayHeight : UInt32} {s s' : DlistBuild}

theorem appendWords_some {values words words' : List UInt32}
    (h : appendWords capacity values words = some words') (hwords : words.length ≤ capacity) :
    words' = words ++ values ∧ words'.length ≤ capacity := by
  induction values generalizing words with
  | nil =>
    cases h
    exact ⟨(append_nil _).symm, hwords⟩
  | cons value values ih =>
    obtain ⟨between, hfirst, hrest⟩ := bind_eq_some_iff.1 h
    unfold appendWord at hfirst
    split at hfirst
    next => cases hfirst
    next hroom =>
      cases hfirst
      have hbetween : (words ++ [value]).length ≤ capacity := by
        rw [length_append, length_singleton]
        omega
      obtain ⟨hall, hlength⟩ := ih hrest hbetween
      refine ⟨?_, hlength⟩
      rw [hall, append_assoc, singleton_append]

namespace Hvs5Plane

/-- The words of a plane behind its first one. -/
def body (plane : Hvs5Plane) (planeIndex : UInt32) : List UInt32 :=
  plane.imageWords.tail ++ plane.scalingWords planeIndex

def wordCount (plane : Hvs5Plane) (planeIndex : UInt32) : Nat := (plane.body planeIndex).length + 1

def words (plane : Hvs5Plane) (planeIndex : UInt32) : List UInt32 :=
  plane.control (UInt32.ofNat (plane.wordCount planeIndex)) :: plane.body planeIndex

theorem wordCount_lt (plane : Hvs5Plane) (planeIndex : UInt32) : plane.wordCount planeIndex < 64 := by
  unfold wordCount body imageWords scalingWords
  simp only [length_append, length_tail]
  have hif : ∀ (c : Prop) [Decidable c] (a b : List UInt32),
      (if c then a else b).length ≤ max a.length b.length := by
    intro c _ a b
    split
    · exact Nat.le_max_left ..
    · exact Nat.le_max_right ..
  have hunity := hif (plane.unity = true) [] [plane.destinationHeight <<< 16 ||| plane.destinationWidth]
  have hlbm := hif (plane.vertical = .none) [] [planeIndex * hvsLbmPlaneStrideWords]
  have hppf := hif (plane.horizontal = .ppf) [makePpfWord plane.width plane.destinationWidth plane.nearest] []
  have hppf' := hif (plane.vertical = .ppf)
    [makePpfWord plane.height plane.destinationHeight plane.nearest, hvsContextPlaceholder] []
  have htpz := hif (plane.horizontal = .tpz)
    [makeTpzWord0 plane.width plane.destinationWidth, makeTpzWord1 plane.width plane.destinationWidth] []
  have htpz' := hif (plane.vertical = .tpz)
    [makeTpzWord0 plane.height plane.destinationHeight, makeTpzWord1 plane.height plane.destinationHeight,
      hvsContextPlaceholder] []
  have hkernels := hif (plane.usesPpf = true) (List.replicate 4 plane.kernelSlot) []
  simp only [length_cons, length_nil, length_replicate] at *
  omega

end Hvs5Plane

theorem appendPlane_some
    {indexed : Hvs5Plane × Nat} (h : appendPlane displayWidth displayHeight capacity s indexed = some s')
    (hs : s.words.length ≤ capacity) :
    indexed.1.accepted displayWidth displayHeight ∧ s'.words = s.words ++ indexed.1.words (UInt32.ofNat indexed.2) ∧
      s'.words.length ≤ capacity := by
  obtain ⟨plane, index⟩ := indexed
  unfold appendPlane at h
  simp only at h ⊢
  split at h
  next => cases h
  next haccepted =>
    obtain ⟨image, himage, h⟩ := bind_eq_some_iff.1 h
    obtain ⟨all, hall, h⟩ := bind_eq_some_iff.1 h
    obtain ⟨himageWords, himageLength⟩ := appendWords_some himage hs
    obtain ⟨hallWords, hallLength⟩ := appendWords_some hall himageLength
    have hhead : plane.imageWords = 0 :: plane.imageWords.tail := by
      unfold Hvs5Plane.imageWords
      rfl
    have hwords : all = s.words ++ 0 :: plane.body (UInt32.ofNat index) := by
      rw [hallWords, himageWords, hhead, append_assoc]
      rfl
    have hcount : all.length - s.words.length = plane.wordCount (UInt32.ofNat index) := by
      rw [hwords, length_append, length_cons]
      exact Nat.add_sub_cancel_left ..
    rw [hcount] at h
    split at h
    next => cases h
    next =>
      cases h
      have hset : all.set s.words.length (plane.control (UInt32.ofNat (plane.wordCount (UInt32.ofNat index)))) =
          s.words ++ plane.words (UInt32.ofNat index) := by
        rw [hwords, set_append_right _ _ (Nat.le_refl _), Nat.sub_self]
        rfl
      refine ⟨by simpa using haccepted, hset, ?_⟩
      rw [length_set]
      exact hallLength

def planesWords (planes : List (Hvs5Plane × Nat)) : List UInt32 :=
  planes.flatMap fun indexed => indexed.1.words (UInt32.ofNat indexed.2)

theorem appendPlanes_some
    {planes : List (Hvs5Plane × Nat)} (h : planes.foldlM (appendPlane displayWidth displayHeight capacity) s = some s')
    (hs : s.words.length ≤ capacity) :
    (∀ indexed ∈ planes, indexed.1.accepted displayWidth displayHeight) ∧ s'.words = s.words ++ planesWords planes ∧
      s'.words.length ≤ capacity := by
  induction planes generalizing s with
  | nil =>
    cases h
    exact ⟨fun indexed hin => absurd hin not_mem_nil, (append_nil _).symm, hs⟩
  | cons indexed planes ih =>
    obtain ⟨between, hfirst, hrest⟩ := bind_eq_some_iff.1 h
    obtain ⟨haccepted, hwords, hlength⟩ := appendPlane_some hfirst hs
    obtain ⟨hothers, hwords', hlength'⟩ := ih hrest hlength
    refine ⟨fun other hin => ?_, ?_, hlength'⟩
    · rcases mem_cons.1 hin with rfl | hin
      · exact haccepted
      · exact hothers other hin
    · rw [hwords', hwords, planesWords, planesWords, flatMap_cons, append_assoc]

/-- A list that was built: the words of its planes, and one end word behind them. -/
theorem buildHvs5Dlist_some {planes : List Hvs5Plane}
    (h : buildHvs5Dlist planes displayWidth displayHeight capacity = some s) :
    planes.length ≤ hvs5MaximumPlanes ∧ capacity ≤ hvs5MaximumArmDlistWords ∧
      (∀ plane ∈ planes, plane.accepted displayWidth displayHeight) ∧
      s.words = planesWords planes.zipIdx ++ [hvsCtl0End] ∧ s.words.length ≤ capacity := by
  unfold buildHvs5Dlist at h
  split at h
  next => cases h
  next hgiven =>
    rw [not_or, not_or, not_or] at hgiven
    obtain ⟨between, hplanes, h⟩ := bind_eq_some_iff.1 h
    obtain ⟨words, hend, h⟩ := bind_eq_some_iff.1 h
    obtain ⟨haccepted, hwords, hlength⟩ := appendPlanes_some hplanes (Nat.zero_le _)
    unfold appendWord at hend
    split at hend
    next => cases hend
    next hroom =>
      cases hend
      cases h
      refine ⟨Nat.not_lt.1 hgiven.2.1, Nat.not_lt.1 hgiven.2.2.2, fun plane hin => ?_, ?_, ?_⟩
      · rw [← zipIdx_map_fst 0 planes] at hin
        obtain ⟨indexed, hindexed, rfl⟩ := mem_map.1 hin
        exact haccepted indexed hindexed
      · rw [hwords]
        rfl
      · rw [length_append, length_singleton]
        omega

/-! ### The first word of a plane -/

/-- A field of a word: so many bits from a shift on. -/
def bitField (word : UInt32) (shift width : Nat) : Nat := word.toNat / 2 ^ shift % 2 ^ width

structure ControlFields (control : UInt32) (planeWords scaling : Nat) (unity argb : Bool) : Prop where
  size : planeWordsOf control = planeWords
  noEnd : control &&& hvsCtl0End = 0
  valid : control &&& hvsCtl0Valid ≠ 0
  unity : bitField control 15 1 = unity.toNat
  horizontal : bitField control 5 3 = scaling
  vertical : bitField control 8 3 = scaling
  format : bitField control 0 4 = if argb then hvsPixelFormatRgba8888.toNat else hvsPixelFormatRgb565.toNat
  order : bitField control 13 2 = 2

def controlWord (planeWords scaling : Nat) (unity argb : Bool) : UInt32 :=
  hvsCtl0Valid ||| UInt32.ofNat planeWords <<< hvsCtl0SizeShift |||
    (if argb then hvsCtl0OrderArgb else hvsCtl0OrderXrgb) ||| (if unity then hvs5Ctl0Unity else 0) |||
    hvs5Ctl0AlphaExpand ||| hvs5Ctl0RgbExpand ||| UInt32.ofNat scaling <<< hvsCtl0ScaleShift0 |||
    UInt32.ofNat scaling <<< hvsCtl0ScaleShift1 |||
    (if argb then hvsPixelFormatRgba8888 else hvsPixelFormatRgb565)

theorem controlWord_fields {planeWords scaling : Nat} (hwords : planeWords < 64) (hscaling : scaling < 8)
    (unity argb : Bool) : ControlFields (controlWord planeWords scaling unity argb) planeWords scaling unity argb := by
  have hall : ∀ scaling < 8, ∀ n < 64, ∀ unity argb : Bool, let control := controlWord n scaling unity argb
      planeWordsOf control = n ∧ control &&& hvsCtl0End = 0 ∧ control &&& hvsCtl0Valid ≠ 0 ∧
        bitField control 15 1 = unity.toNat ∧ bitField control 5 3 = scaling ∧ bitField control 8 3 = scaling ∧
        (bitField control 0 4 = if argb then hvsPixelFormatRgba8888.toNat else hvsPixelFormatRgb565.toNat) ∧
        bitField control 13 2 = 2 := by
    decide
  obtain ⟨hsize, hend, hvalid, hunity, hhorizontal, hvertical, hformat, horder⟩ :=
    hall scaling hscaling planeWords hwords unity argb
  exact ⟨hsize, hend, hvalid, hunity, hhorizontal, hvertical, hformat, horder⟩

theorem makeScaleField_lt (horizontal vertical : HvsScaling) :
    (makeScaleField horizontal vertical).toNat < 8 ∧
      UInt32.ofNat (makeScaleField horizontal vertical).toNat = makeScaleField horizontal vertical := by
  cases horizontal <;> cases vertical <;> decide

namespace Hvs5Plane

def scaling (plane : Hvs5Plane) : Nat := (makeScaleField plane.horizontal plane.vertical).toNat

def argb (plane : Hvs5Plane) : Bool := plane.format = .argb8888

theorem control_eq (plane : Hvs5Plane) (planeWords : Nat) :
    plane.control (UInt32.ofNat planeWords) = controlWord planeWords plane.scaling plane.unity plane.argb := by
  obtain ⟨-, hsame⟩ := makeScaleField_lt plane.horizontal plane.vertical
  have hfield : (if plane.unity then 0 else makeScaleField plane.horizontal plane.vertical) =
      UInt32.ofNat plane.scaling := by
    split
    next hunity =>
      rw [unity, Bool.and_eq_true, decide_eq_true_eq, decide_eq_true_eq] at hunity
      rw [scaling, hunity.1, hunity.2]
      rfl
    next => exact hsame.symm
  have horder : plane.pixelOrder = if plane.argb then hvsCtl0OrderArgb else hvsCtl0OrderXrgb := by
    simp [pixelOrder, argb]
  have hformat : plane.pixelFormat = if plane.argb then hvsPixelFormatRgba8888 else hvsPixelFormatRgb565 := by
    simp [pixelFormat, argb]
  unfold control controlWord
  rw [hfield, horder, hformat]

theorem control_fields (plane : Hvs5Plane) (planeIndex : UInt32) :
    ControlFields (plane.control (UInt32.ofNat (plane.wordCount planeIndex))) (plane.wordCount planeIndex)
      plane.scaling plane.unity plane.argb := by
  obtain ⟨hscaling, -⟩ := makeScaleField_lt plane.horizontal plane.vertical
  rw [control_eq]
  exact controlWord_fields (plane.wordCount_lt planeIndex) hscaling plane.unity plane.argb

end Hvs5Plane

/-! ### The inspector -/

theorem fnv1a32_inside {words : Array UInt32} {count : Nat} (hcount : count ≤ words.size) :
    ∃ hash, fnv1a32 words count = some hash := by
  have hloop : ∀ (indices : List Nat) (hash : UInt32), (∀ i ∈ indices, i < words.size) →
      ∃ hash', indices.foldlM (fun hash i => words[i]?.map fun value => hashBytes hash value 4) hash = some hash' := by
    intro indices
    induction indices with
    | nil => exact fun hash _ => ⟨hash, rfl⟩
    | cons i indices ih =>
      intro hash hinside
      have hi := hinside i (mem_cons_self ..)
      obtain ⟨hash', hrest⟩ := ih (hashBytes hash words[i] 4) fun j hj => hinside j (mem_cons_of_mem _ hj)
      refine ⟨hash', ?_⟩
      rw [foldlM_cons, Array.getElem?_eq_getElem hi]
      exact hrest
  exact hloop _ _ fun i hi => Nat.lt_of_lt_of_le (mem_range.1 hi) hcount

theorem inspectFrom_inside {words : Array UInt32} {wordCount : Nat} (hcount : wordCount ≤ words.size)
    (offset planeCount : Nat) : inspectFrom words wordCount offset planeCount ≠ .outside := by
  fun_induction inspectFrom words wordCount offset planeCount with
  | case1 offset planeCount hmore hnone =>
    have hin : offset < words.size := by omega
    rw [Array.getElem?_eq_getElem hin] at hnone
    cases hnone
  | case2 offset planeCount hmore control hcontrol hend hhash =>
    obtain ⟨hash, hsome⟩ := @fnv1a32_inside words (offset + 1) (by omega)
    rw [hsome] at hhash
    cases hhash
  | case3 => exact Inspection.noConfusion
  | case4 => exact Inspection.noConfusion
  | case5 => exact Inspection.noConfusion
  | case6 offset planeCount hmore control hcontrol hend hvalid hplane ih => exact ih
  | case7 => exact Inspection.noConfusion

/-- The words of one plane, as the inspector steps over them. -/
def Block (block : List UInt32) : Prop :=
  ∃ control body, block = control :: body ∧ planeWordsOf control = block.length ∧ control &&& hvsCtl0End = 0 ∧
    control &&& hvsCtl0Valid ≠ 0

theorem inspectFrom_blocks {words : Array UInt32} {wordCount : Nat} {blocks : List (List UInt32)}
    {before rest : List UInt32} (hblocks : ∀ block ∈ blocks, Block block)
    (hwords : words.toList = before ++ (blocks.flatten ++ hvsCtl0End :: rest))
    (hused : before.length + blocks.flatten.length < wordCount) (hcount : wordCount ≤ words.size)
    (planeCount : Nat) :
    ∃ hash, inspectFrom words wordCount before.length planeCount =
      .returned true { endFound := true, planeCount := planeCount + blocks.length
                       usedWords := before.length + blocks.flatten.length + 1, hash := hash } := by
  induction blocks generalizing before planeCount with
  | nil =>
    rw [flatten_nil, length_nil, Nat.add_zero] at hused ⊢
    have hat : words[before.length]? = some hvsCtl0End := by
      rw [← Array.getElem?_toList, hwords, getElem?_append_right (Nat.le_refl _), Nat.sub_self]
      rfl
    obtain ⟨hash, hhash⟩ := @fnv1a32_inside words (before.length + 1) (by omega)
    refine ⟨hash, ?_⟩
    have hend : hvsCtl0End &&& hvsCtl0End ≠ 0 := by decide
    rw [inspectFrom]
    simp only [hused, hat, hend, hhash, if_true, ne_eq, not_false_eq_true]
    rfl
  | cons block blocks ih =>
    obtain ⟨control, body, rfl, hsize, hend, hvalid⟩ := hblocks block (mem_cons_self ..)
    rw [flatten_cons, length_append] at hused
    have hat : words[before.length]? = some control := by
      rw [← Array.getElem?_toList, hwords, getElem?_append_right (Nat.le_refl _), Nat.sub_self]
      rfl
    have hwords' : words.toList = (before ++ control :: body) ++ (blocks.flatten ++ hvsCtl0End :: rest) := by
      rw [hwords, flatten_cons]
      simp only [append_assoc]
    have hlength : (before ++ control :: body).length = before.length + planeWordsOf control := by
      rw [length_append, hsize]
    obtain ⟨hash, hrest⟩ := ih (fun other hin => hblocks other (mem_cons_of_mem _ hin)) hwords'
      (by rw [hlength, hsize]; omega) (planeCount + 1)
    refine ⟨hash, ?_⟩
    have hmore : before.length < wordCount := by omega
    have hplane : ¬ (planeWordsOf control = 0 ∨ planeWordsOf control ≥ wordCount - before.length) := by
      rw [hsize]
      rw [length_cons] at hused ⊢
      omega
    rw [inspectFrom]
    simp only [hmore, hat, hend, hvalid, hplane, if_false, ne_eq, not_true_eq_false, dite_false]
    have hcount : planeCount + 1 + blocks.length = planeCount + ((control :: body) :: blocks).length := by
      rw [length_cons]
      omega
    have hused' : (before ++ control :: body).length + blocks.flatten.length =
        before.length + ((control :: body) :: blocks).flatten.length := by
      rw [flatten_cons, length_append, length_append]
      omega
    rw [← hlength, ← hcount, ← hused']
    exact hrest

/-- A list of planes is found again in an array that goes on behind it. -/
theorem inspect_blocks {blocks : List (List UInt32)} (hblocks : ∀ block ∈ blocks, Block block) {list : List UInt32}
    (hlist : list = blocks.flatten ++ [hvsCtl0End]) (rest : List UInt32) {wordCount : UInt32}
    (hused : list.length ≤ wordCount.toNat) (hcount : wordCount.toNat ≤ (list ++ rest).length) :
    ∃ hash, inspectHvs5Dlist (list ++ rest).toArray wordCount =
      .returned true { endFound := true, planeCount := blocks.length, usedWords := list.length, hash := hash } := by
  have hlength : list.length = blocks.flatten.length + 1 := by
    rw [hlist, length_append, length_singleton]
  have hwords : (list ++ rest).toArray.toList = [] ++ (blocks.flatten ++ hvsCtl0End :: rest) := by
    rw [hlist]
    simp
  have hsize : (list ++ rest).toArray.size = (list ++ rest).length := size_toArray
  obtain ⟨hash, hwalk⟩ := @inspectFrom_blocks _ wordCount.toNat blocks [] rest hblocks hwords
    (by rw [length_nil]; omega) (by rw [hsize]; exact hcount) 0
  rw [length_nil, Nat.zero_add, Nat.zero_add, ← hlength] at hwalk
  refine ⟨hash, ?_⟩
  have hne : wordCount ≠ 0 := by
    rintro rfl
    rw [hlength] at hused
    exact absurd hused (Nat.not_succ_le_zero _)
  rw [inspectHvs5Dlist, if_neg hne]
  exact hwalk

theorem Hvs5Plane.block_words (plane : Hvs5Plane) (planeIndex : UInt32) : Block (plane.words planeIndex) := by
  have hfields := plane.control_fields planeIndex
  exact ⟨_, _, rfl, hfields.size, hfields.noEnd, hfields.valid⟩

theorem unity_block {plane : Hvs5Rgb565UnityPlane} {words : List UInt32}
    (h : buildHvs5Rgb565UnityDlist plane capacity = some words) :
    ∃ block, Block block ∧ words = [block].flatten ++ [hvsCtl0End] := by
  unfold buildHvs5Rgb565UnityDlist at h
  split at h
  next => cases h
  next =>
    cases h
    have hfields := @controlWord_fields 8 0 (by decide) (by decide) true false
    refine ⟨_ :: [_, _, _, _, _, _, _], ⟨controlWord 8 0 true false, _, rfl, ?_, hfields.noEnd, hfields.valid⟩, rfl⟩
    exact hfields.size

/-- What the inspector tells about the array that a builder has written to. -/
def Accepts (list : List UInt32) (planeCount : Nat) : Prop :=
  ∀ (rest : List UInt32) (wordCount : UInt32), list.length ≤ wordCount.toNat →
    wordCount.toNat ≤ (list ++ rest).length →
      ∃ hash, inspectHvs5Dlist (list ++ rest).toArray wordCount =
        .returned true { endFound := true, planeCount := planeCount, usedWords := list.length, hash := hash }

/-- The inspector stays inside every array, and accepts every list of either builder, with its planes and its words. -/
theorem inspector_accepts_built :
    (∀ (words : Array UInt32) (wordCount : UInt32), wordCount.toNat ≤ words.size →
      inspectHvs5Dlist words wordCount ≠ .outside) ∧
      (∀ planes displayWidth displayHeight capacity s,
        buildHvs5Dlist planes displayWidth displayHeight capacity = some s → Accepts s.words planes.length) ∧
      ∀ plane capacity words, buildHvs5Rgb565UnityDlist plane capacity = some words → Accepts words 1 := by
  refine ⟨fun words wordCount hcount => ?_, fun planes displayWidth displayHeight capacity s hbuild => ?_,
    fun plane capacity words hbuild => ?_⟩
  · unfold inspectHvs5Dlist
    split
    next => exact Inspection.noConfusion
    next => exact inspectFrom_inside hcount 0 0
  · obtain ⟨-, -, -, hwords, -⟩ := buildHvs5Dlist_some hbuild
    have hblocks : ∀ block ∈ planes.zipIdx.map (fun indexed => indexed.1.words (UInt32.ofNat indexed.2)), Block block := by
      intro block hblock
      obtain ⟨indexed, -, rfl⟩ := mem_map.1 hblock
      exact indexed.1.block_words _
    intro rest wordCount hused hcount
    obtain ⟨hash, hinspect⟩ := inspect_blocks hblocks (hwords.trans (by rw [planesWords, flatMap_def])) rest hused
      hcount
    refine ⟨hash, ?_⟩
    rw [hinspect, length_map, length_zipIdx]
  · obtain ⟨block, hblock, hwords⟩ := unity_block hbuild
    intro rest wordCount hused hcount
    exact inspect_blocks (fun other hin => mem_singleton.1 hin ▸ hblock) hwords rest hused hcount

/-- A plane that is scaled in one direction, and a word behind its list. -/
theorem inspector_accepts_scaled :
    ∃ hash, inspectHvs5Dlist
      ((((buildHvs5Dlist [⟨4096, 640, 320, 200, .rgb565, .nearest, 0, 0, 320, 400⟩] 320 400 64).getD {}).words) ++
        [7]).toArray 18 =
      .returned true { endFound := true, planeCount := 1, usedWords := 17, hash := hash } := by
  have hbuild : buildHvs5Dlist [⟨4096, 640, 320, 200, .rgb565, .nearest, 0, 0, 320, 400⟩] 320 400 64 =
      some ((buildHvs5Dlist [⟨4096, 640, 320, 200, .rgb565, .nearest, 0, 0, 320, 400⟩] 320 400 64).getD {}) := by
    decide
  exact inspector_accepts_built.2.1 _ _ _ _ _ hbuild [7] 18 (by decide) (by decide)

end Bmx.Graphics
