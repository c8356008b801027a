import Bmx.Base.Words
import Bmx.Remote.DeveloperDestination
import Bmx.Remote.MediaPathSpec

/-!
# The page and the device agree on file targets

Both sides look at a path component by component. What the page accepts in one is what the device accepts in its bytes,
and code page 850 and the percent coding lose nothing on the way.
-/

namespace Bmx.Remote

open Update List

/-! ### Components -/

/-- A component that the device takes. -/
def PieceValid (piece : Bytes) : Prop :=
  (∀ c ∈ piece, developerCharacter c = true) ∧ componentShapeValid piece = true

variable {path source decoded bytes : Bytes} {codePoint : Nat} {pieces : List Bytes}
  {value volume relative component : JsText}

theorem validateDeveloper_iff {maximumPathBytes : Nat} :
    validateDeveloperFatRelativePath path maximumPathBytes = .ok ↔
      path.length < maximumPathBytes ∧ ∀ piece ∈ path.splitOn slash, PieceValid piece := by
  obtain ⟨first, rest, hsplit⟩ := exists_cons_of_ne_nil (splitOn_ne_nil slash path)
  have hscan : scanComponents developerCharacter componentShapeValid [] path = true ↔
      ∀ piece ∈ path.splitOn slash, PieceValid piece := by
    rw [scanComponents_iff hsplit, hsplit, forall_mem_cons]
    rfl
  have hnamed : ¬ PieceValid [] := fun h => absurd h.2 (by decide)
  have hends : (∀ piece ∈ path.splitOn slash, PieceValid piece) →
      ¬ (path.length = 0 ∨ path.head? = some slash ∨ path.getLast? = some slash) := by
    intro hpieces hbad
    refine hnamed (hpieces [] ?_)
    rcases hbad with hbad | hbad | hbad
    · rw [length_eq_zero_iff.1 hbad]
      simp [splitOn_nil]
    · obtain ⟨tail, rfl⟩ := head?_eq_some_iff.1 hbad
      exact mem_cons_self
    · obtain ⟨front, rfl⟩ := getLast?_eq_some_iff.1 hbad
      rw [splitOn_append_cons_self]
      simp [splitOn_nil]
  unfold validateDeveloperFatRelativePath
  split
  · simp_all
  split
  · simp only [reduceCtorEq, false_iff, not_and]
    omega
  split
  · rename_i hbad
    simp only [reduceCtorEq, false_iff, not_and]
    exact fun _ hpieces => hends hpieces hbad
  split
  · rename_i hvalid
    simp only [true_iff]
    exact ⟨by omega, hscan.1 hvalid⟩
  · rename_i hvalid
    simp only [reduceCtorEq, false_iff, not_and]
    exact fun _ hpieces => hvalid (hscan.2 hpieces)

/-! ### Code page 850 -/

theorem cp850Reverse_none (h : 0x25a0 < codePoint) : cp850Reverse codePoint = none := by
  have hbound : ∀ c ∈ cp850High, c ≤ 0x25a0 := by decide +kernel
  have hmem : codePoint ∉ cp850High := fun hin => by
    have hle := hbound codePoint hin
    omega
  rw [cp850Reverse, idxOf?_eq_none_iff.2 hmem]
  rfl

theorem cp850Byte_high (h : 0x25a0 < codePoint) : cp850Byte codePoint = .error .codePage := by
  rw [cp850Byte, if_neg (by omega), cp850Reverse_none h]

/-- The page encodes unit by unit: it has no byte for a surrogate, with or without its partner. -/
theorem cp850Bytes_eq (value : JsText) : cp850Bytes value = value.mapM fun unit => cp850Byte unit.toNat := by
  unfold cp850Bytes
  induction value using codePoints.induct with
  | case1 => rfl
  | case2 unit => rfl
  | case3 high low rest hpair ih =>
    have hhigh : 0x25a0 < high.toNat := by
      have hfirst := UInt16.le_iff_toNat_le.1 hpair.1.1
      simp only [UInt16.reduceToNat] at hfirst
      omega
    rw [codePoints, if_pos hpair, mapM_cons, mapM_cons, cp850Byte_high hhigh, cp850Byte_high (by omega)]
    rfl
  | case4 high low rest hpair ih =>
    rw [codePoints, if_neg hpair, mapM_cons, mapM_cons, ih]

theorem cp850Byte_slash {byte : UInt8} (h : cp850Byte codePoint = .ok byte) : byte = slash ↔ codePoint = 47 := by
  unfold cp850Byte at h
  split at h
  · rename_i hascii
    obtain rfl := (ok_eq_ok.1 h).symm
    rw [← UInt8.toNat_inj, UInt8.toNat_ofNat_of_lt' (by change codePoint < 256; omega)]
    rfl
  · rename_i hascii
    split at h
    · rename_i encoded hencoded
      obtain rfl := ok_eq_ok.1 h
      obtain ⟨index, hindex, rfl⟩ := Option.map_eq_some_iff.1 hencoded
      have hlt : index < 128 := (idxOf?_eq_some_iff.1 hindex).1
      constructor
      · intro hbyte
        have hnat := congrArg UInt8.toNat hbyte
        rw [UInt8.toNat_ofNat_of_lt' (by change index + 0x80 < 256; omega)] at hnat
        change index + 0x80 = 47 at hnat
        omega
      · rintro rfl
        omega
    · cases h

def cp850Unit (byte : UInt8) : UInt16 :=
  if byte < 0x80 then byte.toUInt16 else UInt16.ofNat (cp850High.getD (byte.toNat - 0x80) 0)

theorem cp850Byte_unit : ∀ byte, cp850Byte (cp850Unit byte).toNat = .ok byte :=
  forall_byte (by decide +kernel)

theorem cp850Unit_bounds : ∀ byte, (0x20 ≤ byte → byte ≠ 0x7f → 0x20 ≤ (cp850Unit byte).toNat ∧
    (cp850Unit byte).toNat ≠ 0x7f) ∧ (cp850Unit byte).toNat < 0xd800 ∧ (cp850Unit byte = 47 ↔ byte = slash) :=
  forall_byte (by decide +kernel)

theorem cp850Bytes_units (bytes : Bytes) : cp850Bytes (bytes.map cp850Unit) = .ok bytes := by
  rw [cp850Bytes_eq]
  induction bytes with
  | nil => rfl
  | cons byte bytes ih =>
    rw [map_cons, mapM_cons, cp850Byte_unit, ih]
    rfl

theorem codePoints_units {text : JsText} (h : ∀ unit ∈ text, unit.toNat < 0xd800) :
    codePoints text = text.map (·.toNat) := by
  induction text using codePoints.induct with
  | case1 => rfl
  | case2 unit => rfl
  | case3 high low rest hpair ih =>
    have hhigh := h high mem_cons_self
    have hfirst := UInt16.le_iff_toNat_le.1 hpair.1.1
    simp only [UInt16.reduceToNat] at hfirst
    omega
  | case4 high low rest hpair ih =>
    rw [codePoints, if_neg hpair, ih fun unit hunit => h unit (mem_cons_of_mem _ hunit)]
    rfl

/-! ### Percent coding -/

theorem decoded_of_percentEncodes (h : PercentEncodes source decoded) : percentDecoded source = some decoded := by
  induction h with
  | nil => rfl
  | plain hescape hnul hrest ih =>
    rw [percentDecoded.eq_def]
    dsimp only
    rw [if_neg hescape, if_neg hnul, ih]
    rfl
  | escaped hhigh hlow hnul hrest ih =>
    rw [percentDecoded, if_pos rfl, hhigh, hlow, Option.bind_some, Option.bind_some, if_neg hnul, ih]
    rfl

theorem PercentEncodes.append {source' decoded' : Bytes} (h : PercentEncodes source decoded)
    (h' : PercentEncodes source' decoded') : PercentEncodes (source ++ source') (decoded ++ decoded') := by
  induction h with
  | nil => exact h'
  | plain hescape hnul hrest ih => exact .plain hescape hnul ih
  | escaped hhigh hlow hnul hrest ih => exact .escaped hhigh hlow hnul ih

theorem percentEncodes_plain (h : ∀ c ∈ source, c ≠ 37 ∧ c ≠ 0) : PercentEncodes source source := by
  induction source with
  | nil => exact .nil
  | cons c source ih =>
    obtain ⟨hc, hrest⟩ := forall_mem_cons.1 h
    exact .plain hc.1 hc.2 (ih hrest)

theorem hexValue_hexUpper : ∀ byte : UInt8, hexValue (hexUpper (byte / 16)) = some (byte / 16) ∧
    hexValue (hexUpper (byte % 16)) = some (byte % 16) ∧ byte / 16 * 16 + byte % 16 = byte ∧
    (isUnreserved byte = true → byte ≠ 37) :=
  forall_byte (by decide +kernel)

theorem percentEncodes_encode (h : ∀ c ∈ bytes, c ≠ 0) : PercentEncodes (percentEncode bytes) bytes := by
  induction bytes with
  | nil => exact .nil
  | cons byte bytes ih =>
    obtain ⟨hbyte, hrest⟩ := forall_mem_cons.1 h
    obtain ⟨hhigh, hlow, hsum, hplain⟩ := hexValue_hexUpper byte
    rw [percentEncode, flatMap_cons]
    split
    · rename_i hunreserved
      exact .plain (hplain hunreserved) hbyte (ih hrest)
    · have hescaped := PercentEncodes.escaped hhigh hlow (by rwa [hsum]) (ih hrest)
      rwa [hsum] at hescaped

theorem percentEncodes_intercalate (h : ∀ piece ∈ pieces, ∀ c ∈ piece, c ≠ 0) :
    PercentEncodes ([slash].intercalate (pieces.map percentEncode)) ([slash].intercalate pieces) := by
  induction pieces with
  | nil => exact .nil
  | cons piece pieces ih =>
    obtain ⟨hpiece, hrest⟩ := forall_mem_cons.1 h
    cases pieces with
    | nil =>
      rw [map_cons, map_nil, intercalate_singleton, intercalate_singleton]
      exact percentEncodes_encode hpiece
    | cons next pieces =>
      rw [map_cons, map_cons, intercalate_cons_cons, intercalate_cons_cons]
      have hslash : PercentEncodes [slash] [slash] := percentEncodes_plain (by decide)
      exact ((percentEncodes_encode hpiece).append hslash).append (ih hrest)

/-! ### The page's side -/

/-- The page's checks, with the bytes of every component. -/
structure Accepts (value volume relative : JsText) (encoded : List Bytes) : Prop where
  split : splitDestination value = some (volume, relative)
  volumeNamed : volume ≠ []
  relativeNamed : relative ≠ []
  printable : ∀ codePoint ∈ codePoints value, 0x20 ≤ codePoint ∧ codePoint ≠ 0x7f
  volumeLength : volume.length ≤ 15
  volumeUnits : ∀ unit ∈ volume, isVolumeUnit unit = true
  components : ∀ component ∈ relative.splitOn 47, component ≠ [] ∧ component ≠ [46] ∧ component ≠ [46, 46]
  encodes : List.Forall₂ (fun component bytes => componentBytes component = .ok bytes) (relative.splitOn 47) encoded
  length : (relative.splitOn 47).length - 1 + (encoded.map List.length).sum < 512

def targetPath (volume : JsText) (encoded : List Bytes) : Bytes :=
  volume.map (·.toUInt8) ++ slash :: [slash].intercalate (encoded.map percentEncode)

theorem parseDestination_eq_ok {destination : Destination} :
    parseDestination value = .ok destination ↔ ∃ volume relative encoded, Accepts value volume relative encoded ∧
      destination = ⟨volume ++ [58, 47] ++ relative, filePrefix ++ targetPath volume encoded⟩ := by
  have hprefix : filePrefix = apiRoot ++ ascii "/fs/" := by decide
  unfold parseDestination
  constructor
  · intro h
    split at h
    · cases h
    rename_i volume relative hsplit
    split at h
    · cases h
    rename_i hnamed
    split at h
    · cases h
    rename_i hprintable
    split at h
    · cases h
    rename_i hvolume
    dsimp only at h
    split at h
    · cases h
    rename_i hcomponents
    obtain ⟨encoded, hencoded, h⟩ := bind_eq_ok.1 h
    split at h
    · cases h
    refine ⟨volume, relative, encoded, ⟨hsplit, fun hv => hnamed (.inl hv), fun hr => hnamed (.inr hr), ?_, ?_, ?_,
      ?_, mapM_eq_ok.1 hencoded, by omega⟩, ?_⟩
    · simpa [Nat.not_lt] using hprintable
    · omega
    · simp only [not_or, Bool.not_eq_false, all_eq_true] at hvolume
      exact hvolume.2
    · simpa [not_or, and_assoc] using hcomponents
    · rw [ok_eq_ok.1 h, hprefix]
      simp [targetPath]
  · rintro ⟨volume, relative, encoded, h, rfl⟩
    rw [h.split]
    dsimp only
    have hunits : ¬ (volume.length > 15 ∨ volume.all isVolumeUnit = false) := by
      have hall := all_eq_true.2 h.volumeUnits
      have hle := h.volumeLength
      simp only [hall, Bool.true_eq_false, or_false]
      omega
    have hlength := h.length
    rw [if_neg (by simp [h.volumeNamed, h.relativeNamed]), if_neg (by simpa [Nat.not_lt] using h.printable),
      if_neg hunits, if_neg (by simpa [not_or, and_assoc] using h.components)]
    refine bind_eq_ok.2 ⟨encoded, mapM_eq_ok.2 h.encodes, ?_⟩
    rw [if_neg (by omega), hprefix]
    simp [targetPath]

theorem splitDestination_eq (h : splitDestination value = some (volume, relative)) :
    value = volume ++ [58, 47] ++ relative := by
  induction value generalizing volume with
  | nil => cases h
  | cons unit rest ih =>
    rw [splitDestination] at h
    split at h
    · rename_i hsep
      cases h
      obtain ⟨tail, rfl⟩ := head?_eq_some_iff.1 hsep.2
      rw [hsep.1]
      rfl
    · obtain ⟨parts, hparts, heq⟩ := Option.map_eq_some_iff.1 h
      cases heq
      rw [cons_append, cons_append, ← ih hparts]

theorem splitDestination_append (hvolume : 58 ∉ volume) (relative : JsText) :
    splitDestination (volume ++ [58, 47] ++ relative) = some (volume, relative) := by
  induction volume with
  | nil => rfl
  | cons unit volume ih =>
    have hunit : unit ≠ 58 := fun h => hvolume (h ▸ mem_cons_self)
    rw [cons_append, cons_append, splitDestination, if_neg fun h => hunit h.1,
      ih fun h => hvolume (mem_cons_of_mem _ h)]
    rfl

theorem cp850Bytes_nil : cp850Bytes component = .ok [] ↔ component = [] := by
  rw [cp850Bytes_eq, mapM_eq_ok, forall₂_nil_right_iff]

theorem componentBytes_eq_ok (hne : component ≠ []) :
    componentBytes component = .ok bytes ↔ cp850Bytes component = .ok bytes ∧ PieceValid bytes := by
  unfold componentBytes
  rw [bind_eq_ok]
  have hvalid : ∀ bytes : Bytes, bytes ≠ [] → ((¬ (bytes.length > 255 ∨ bytes.getLast? = some 0x20 ∨
      bytes.getLast? = some 0x2e ∨ bytes.any (fun byte => byte < 0x20 || byte == 0x7f || isForbidden byte) = true)) ↔
      PieceValid bytes) := by
    intro bytes hbytes
    simp only [PieceValid, developerCharacter, componentShapeValid]
    simp [hbytes, not_or]
    tauto
  constructor
  · rintro ⟨found, hfound, h⟩
    have hfoundNe : found ≠ [] := fun hnil => hne (cp850Bytes_nil.1 (hnil ▸ hfound))
    split at h
    · cases h
    · rename_i hname
      rw [ok_eq_ok.1 h]
      exact ⟨hfound, (hvalid found hfoundNe).1 hname⟩
  · rintro ⟨hbytes, hpiece⟩
    have hbytesNe : bytes ≠ [] := fun hnil => hne (cp850Bytes_nil.1 (hnil ▸ hbytes))
    exact ⟨bytes, hbytes, by rw [if_neg ((hvalid bytes hbytesNe).2 hpiece)]⟩

theorem cp850Bytes_intercalate {components : List JsText}
    (h : List.Forall₂ (fun component bytes => cp850Bytes component = .ok bytes) components pieces) :
    cp850Bytes ([47].intercalate components) = .ok ([slash].intercalate pieces) := by
  induction h with
  | nil => rfl
  | cons hfirst hrest ih =>
    cases hrest with
    | nil => rwa [intercalate_singleton, intercalate_singleton]
    | cons hnext hlater =>
      rw [intercalate_cons_cons, intercalate_cons_cons]
      rw [cp850Bytes_eq] at hfirst ih ⊢
      rw [mapM_append, mapM_append, hfirst, ih]
      rfl

theorem length_intercalate (pieces : List Bytes) :
    ([slash].intercalate pieces).length = pieces.length - 1 + (pieces.map List.length).sum := by
  induction pieces with
  | nil => rfl
  | cons piece pieces ih =>
    cases pieces with
    | nil => simp
    | cons next pieces =>
      rw [intercalate_cons_cons, length_append, length_append, ih]
      simp only [length_cons, length_nil, map_cons, sum_cons]
      omega

/-! ### The device's side -/

theorem volumeUnit_byte {unit : UInt16} (h : isVolumeUnit unit = true) :
    isVolumeCharacter unit.toUInt8 = true ∧ unit.toUInt8 ≠ 37 ∧ unit.toUInt8 ≠ 0 ∧ unit.toUInt8 ≠ slash := by
  have hsmall : unit.toNat < 128 := by
    simp only [isVolumeUnit, Bool.or_eq_true, Bool.and_eq_true, decide_eq_true_eq, beq_iff_eq,
      UInt16.le_iff_toNat_le, ← UInt16.toNat_inj, UInt16.reduceToNat] at h
    omega
  have hall : ∀ n < 128, isVolumeUnit (UInt16.ofNat n) = true → isVolumeCharacter (UInt16.ofNat n).toUInt8 = true ∧
      (UInt16.ofNat n).toUInt8 ≠ 37 ∧ (UInt16.ofNat n).toUInt8 ≠ 0 ∧ (UInt16.ofNat n).toUInt8 ≠ slash := by
    decide
  have hunit := hall unit.toNat hsmall
  rw [UInt16.ofNat_toNat] at hunit
  exact hunit h

theorem volumeCharacter_unit : ∀ byte : UInt8, isVolumeCharacter byte = true →
    isVolumeUnit byte.toUInt16 = true ∧ byte.toUInt16 ≠ 58 ∧ 0x20 ≤ byte.toUInt16.toNat ∧
      byte.toUInt16.toNat ≠ 0x7f ∧ byte.toUInt16.toNat < 0xd800 ∧ byte.toUInt16.toUInt8 = byte :=
  forall_byte (by decide +kernel)

/-- What `ParseTarget` asks of a volume and a path. -/
structure Target (volume path : Bytes) : Prop where
  volumeNamed : volume ≠ []
  pathNamed : path ≠ []
  volumeLength : volume.length ≤ 15
  volumeCharacters : ∀ c ∈ volume, isVolumeCharacter c = true
  path : validateDeveloperFatRelativePath path developerFilePathBytes = .ok

theorem target_of_parse {rawPath volume : Bytes}
    (h : parseTarget rawPath filePrefix developerVolumeBytes developerFilePathBytes = some (volume, path)) :
    Target volume path := by
  unfold parseTarget at h
  split at h
  · cases h
  obtain ⟨decoded, -, h⟩ := Option.bind_eq_some_iff.1 h
  split at h
  · cases h
  dsimp only at h
  split at h
  · cases h
  rename_i hnamed
  split at h
  · cases h
  split at h
  · cases h
  rename_i hcharacters
  split at h
  · cases h
  split at h
  · rename_i hpath
    cases h
    rw [Bool.not_eq_false, all_eq_true] at hcharacters
    exact ⟨fun hv => hnamed (.inl hv), fun hp => hnamed (.inr hp), by omega, hcharacters, hpath⟩
  · cases h

theorem parseTarget_of_encodes {volume : Bytes} (hencodes : PercentEncodes source (volume ++ slash :: path))
    (hslash : ∀ c ∈ volume, c ≠ slash) (h : Target volume path) :
    parseTarget (filePrefix ++ source) filePrefix developerVolumeBytes developerFilePathBytes = some (volume, path) := by
  have hlength : path.length < 512 := (validateDeveloper_iff.1 h.path).1
  have hvolume := h.volumeLength
  have hdecoded : decodePercent source (developerFilePathBytes + 20) = some (volume ++ slash :: path) := by
    refine Option.filter_eq_some_iff.2 ⟨decoded_of_percentEncodes hencodes, ?_⟩
    simp only [length_append, length_cons, decide_eq_true_eq, developerFilePathBytes]
    omega
  have hall : ∀ c ∈ volume, decide (c ≠ slash) = true := fun c hc => decide_eq_true (hslash c hc)
  unfold parseTarget
  rw [if_neg (by simp), drop_left, hdecoded, Option.bind_some, dropWhile_append_of_pos hall,
    takeWhile_append_of_pos hall]
  simp only [dropWhile_cons, ne_eq, not_true_eq_false, decide_false, Bool.false_eq_true, if_false,
    takeWhile_cons, append_nil]
  rw [if_neg (by simp [h.volumeNamed, h.pathNamed]), if_neg (by simp only [developerVolumeBytes]; omega),
    if_neg (by rw [all_eq_true.2 h.volumeCharacters]; decide),
    if_neg (by simp only [developerFilePathBytes]; omega), if_pos h.path]

/-! ### Agreement -/

/-- Every destination of the page is a target of the device: the volume, and the bytes of the relative path. -/
theorem Accepts.target {encoded : List Bytes} (h : Accepts value volume relative encoded) :
    cp850Bytes relative = .ok ([slash].intercalate encoded) ∧
      parseTarget (filePrefix ++ targetPath volume encoded) filePrefix developerVolumeBytes developerFilePathBytes =
        some (volume.map (·.toUInt8), [slash].intercalate encoded) := by
  have hbytes : List.Forall₂ (fun component bytes => cp850Bytes component = .ok bytes ∧ PieceValid bytes ∧ slash ∉ bytes)
      (relative.splitOn 47) encoded := by
    have hcomponents : ∀ component ∈ relative.splitOn 47, component ≠ [] ∧ ∀ unit ∈ component, unit ≠ 47 := by
      intro component hcomponent
      refine ⟨(h.components component hcomponent).1, fun unit hunit => ?_⟩
      simpa using (splitOnP_pieces relative component hcomponent unit hunit).2
    refine ((forall₂_and_left _ _).2 ⟨hcomponents, h.encodes⟩).imp fun component bytes hcomponent => ?_
    obtain ⟨⟨hnamed, hunits⟩, hencoded⟩ := hcomponent
    obtain ⟨hcp850, hpiece⟩ := (componentBytes_eq_ok hnamed).1 hencoded
    refine ⟨hcp850, hpiece, fun hslash => ?_⟩
    rw [cp850Bytes_eq, mapM_eq_ok] at hcp850
    obtain ⟨unit, hunit, hbyte⟩ := exists_of_mem_right hcp850 hslash
    have hsep : unit.toNat = 47 := (cp850Byte_slash hbyte).1 rfl
    exact hunits unit hunit (UInt16.toNat_inj.1 hsep)
  have hpieces : ∀ piece ∈ encoded, PieceValid piece ∧ slash ∉ piece := by
    intro piece hpiece
    obtain ⟨component, -, -, hvalid⟩ := exists_of_mem_right hbytes hpiece
    exact hvalid
  have hne : encoded ≠ [] := fun hnil => by
    have hlen := hbytes.length_eq
    rw [hnil, length_nil, length_eq_zero_iff] at hlen
    exact splitOn_ne_nil _ _ hlen
  have hsplit : ([slash].intercalate encoded).splitOn slash = encoded :=
    splitOn_intercalate slash (fun piece hpiece => (hpieces piece hpiece).2) hne
  have hrelative : cp850Bytes relative = .ok ([slash].intercalate encoded) := by
    have hjoin := cp850Bytes_intercalate (hbytes.imp fun _ _ hrelated => hrelated.1)
    rwa [intercalate_splitOn] at hjoin
  have hvolume : ∀ c ∈ volume.map (·.toUInt8), isVolumeCharacter c = true ∧ c ≠ 37 ∧ c ≠ 0 ∧ c ≠ slash := by
    intro c hc
    obtain ⟨unit, hunit, rfl⟩ := mem_map.1 hc
    exact volumeUnit_byte (h.volumeUnits unit hunit)
  have hzero : ∀ piece ∈ encoded, ∀ c ∈ piece, c ≠ 0 := by
    rintro piece hpiece c hc rfl
    have hallowed := (hpieces piece hpiece).1.1 0 hc
    exact absurd hallowed (by decide)
  have hencodes : PercentEncodes (targetPath volume encoded)
      (volume.map (·.toUInt8) ++ slash :: [slash].intercalate encoded) := by
    have hplain := percentEncodes_plain fun c hc => ⟨(hvolume c hc).2.1, (hvolume c hc).2.2.1⟩
    exact hplain.append (.plain (by decide) (by decide) (percentEncodes_intercalate hzero))
  refine ⟨hrelative, parseTarget_of_encodes hencodes (fun c hc => (hvolume c hc).2.2.2) ?_⟩
  have hlength : ([slash].intercalate encoded).length < 512 := by
    rw [length_intercalate, ← hbytes.length_eq]
    exact h.length
  exact
    { volumeNamed := by simpa using h.volumeNamed
      pathNamed := fun hnil => h.relativeNamed (cp850Bytes_nil.1 (hnil ▸ hrelative))
      volumeLength := by simpa using h.volumeLength
      volumeCharacters := fun c hc => (hvolume c hc).1
      path := validateDeveloper_iff.2 ⟨hlength, fun piece hpiece => (hpieces piece (hsplit ▸ hpiece)).1⟩ }

theorem splitOn_units (path : Bytes) :
    (path.map cp850Unit).splitOn 47 = (path.splitOn slash).map (List.map cp850Unit) := by
  induction path with
  | nil => simp [splitOn_nil]
  | cons byte path ih =>
    have hslash := (cp850Unit_bounds byte).2.2
    rw [map_cons, splitOn_cons_eq_if_modifyHead, splitOn_cons_eq_if_modifyHead, ih]
    by_cases hbyte : byte = slash
    · rw [if_pos (beq_iff_eq.2 (hslash.2 hbyte)), if_pos (beq_iff_eq.2 hbyte)]
      rfl
    · rw [if_neg fun heq => hbyte (hslash.1 (beq_iff_eq.1 heq)), if_neg fun heq => hbyte (beq_iff_eq.1 heq)]
      cases path.splitOn slash with
      | nil => rfl
      | cons first rest => rfl

/-- What the page's user types for a target of the device. -/
def typedDestination (volume path : Bytes) : JsText :=
  volume.map (·.toUInt16) ++ [58, 47] ++ path.map cp850Unit

theorem Target.accepts {volume : Bytes} (h : Target volume path) :
    Accepts (typedDestination volume path) (volume.map (·.toUInt16)) (path.map cp850Unit) (path.splitOn slash) := by
  obtain ⟨hlength, hpieces⟩ := validateDeveloper_iff.1 h.path
  have hvolume : ∀ unit ∈ volume.map (·.toUInt16), isVolumeUnit unit = true ∧ unit ≠ 58 ∧ 0x20 ≤ unit.toNat ∧
      unit.toNat ≠ 0x7f ∧ unit.toNat < 0xd800 := by
    intro unit hunit
    obtain ⟨byte, hbyte, rfl⟩ := mem_map.1 hunit
    obtain ⟨hunits, hcolon, hlow, hdel, hhigh, -⟩ := volumeCharacter_unit byte (h.volumeCharacters byte hbyte)
    exact ⟨hunits, hcolon, hlow, hdel, hhigh⟩
  have hpath : ∀ unit ∈ path.map cp850Unit, 0x20 ≤ unit.toNat ∧ unit.toNat ≠ 0x7f ∧ unit.toNat < 0xd800 := by
    intro unit hunit
    obtain ⟨byte, hbyte, rfl⟩ := mem_map.1 hunit
    obtain ⟨hbounds, hhigh, -⟩ := cp850Unit_bounds byte
    have hallowed : 0x20 ≤ byte ∧ byte ≠ 0x7f := by
      by_cases hslash : byte = slash
      · rw [hslash]
        decide
      · obtain ⟨first, rest, hsplit⟩ := exists_cons_of_ne_nil (splitOn_ne_nil slash path)
        have hscan : scanComponents developerCharacter componentShapeValid [] path = true := by
          rw [scanComponents_iff hsplit]
          rw [hsplit] at hpieces
          exact ⟨hpieces first mem_cons_self, fun piece hpiece => hpieces piece (mem_cons_of_mem _ hpiece)⟩
        have hchar := (scanComponents_characters hscan hbyte).resolve_left hslash
        simp only [developerCharacter, Bool.and_eq_true, decide_eq_true_eq, bne_iff_ne] at hchar
        exact hchar.1
    exact ⟨(hbounds hallowed.1 hallowed.2).1, (hbounds hallowed.1 hallowed.2).2, hhigh⟩
  have hall : ∀ unit ∈ typedDestination volume path, 0x20 ≤ unit.toNat ∧ unit.toNat ≠ 0x7f ∧ unit.toNat < 0xd800 := by
    intro unit hunit
    unfold typedDestination at hunit
    rcases mem_append.1 hunit with hunit | hunit
    · rcases mem_append.1 hunit with hunit | hunit
      · exact (hvolume unit hunit).2.2
      · have hseparator : ∀ unit ∈ ([58, 47] : JsText),
            0x20 ≤ unit.toNat ∧ unit.toNat ≠ 0x7f ∧ unit.toNat < 0xd800 := by decide
        exact hseparator unit hunit
    · exact hpath unit hunit
  have hcolon : 58 ∉ volume.map (·.toUInt16) := fun hin => (hvolume 58 hin).2.1 rfl
  exact
    { split := splitDestination_append hcolon _
      volumeNamed := by simpa using h.volumeNamed
      relativeNamed := by simpa using h.pathNamed
      printable := by
        rw [codePoints_units fun unit hunit => (hall unit hunit).2.2]
        intro codePoint hcodePoint
        obtain ⟨unit, hunit, rfl⟩ := mem_map.1 hcodePoint
        exact ⟨(hall unit hunit).1, (hall unit hunit).2.1⟩
      volumeLength := by simpa using h.volumeLength
      volumeUnits := fun unit hunit => (hvolume unit hunit).1
      components := by
        rw [splitOn_units]
        intro component hcomponent
        obtain ⟨piece, hpiece, rfl⟩ := mem_map.1 hcomponent
        -- A dot component would be a piece that ends in a dot.
        have hdots : ∀ name : Bytes, cp850Bytes (piece.map cp850Unit) = .ok name → PieceValid name := by
          intro name hname
          rw [cp850Bytes_units, ok_eq_ok] at hname
          exact hname ▸ hpieces piece hpiece
        refine ⟨fun heq => ?_, fun heq => ?_, fun heq => ?_⟩
        · exact absurd (hdots [] (by rw [heq]; rfl)).2 (by decide)
        · exact absurd (hdots [46] (by rw [heq]; rfl)).2 (by decide)
        · exact absurd (hdots [46, 46] (by rw [heq]; rfl)).2 (by decide)
      encodes := by
        rw [splitOn_units, forall₂_map_left_iff, forall₂_same]
        intro piece hpiece
        have hvalid := hpieces piece hpiece
        have hne : piece.map cp850Unit ≠ [] := by
          rw [ne_eq, map_eq_nil_iff]
          rintro rfl
          exact absurd hvalid.2 (by decide)
        exact (componentBytes_eq_ok hne).2 ⟨cp850Bytes_units piece, hvalid⟩
      length := by
        rw [splitOn_units, length_map, ← length_intercalate, intercalate_splitOn]
        exact hlength }

/-- What the page accepts is a target of the device, with the same volume and the bytes of the same relative path, and
the page has a destination for every target. -/
theorem destinations_agree :
    (∀ value destination, parseDestination value = .ok destination → ∃ volume relative path,
      value = volume ++ [58, 47] ++ relative ∧ 58 ∉ volume ∧ destination.displayPath = value ∧
      cp850Bytes relative = .ok path ∧
      parseTarget destination.requestPath filePrefix developerVolumeBytes developerFilePathBytes =
        some (volume.map (·.toUInt8), path)) ∧
    (∀ rawPath volume path,
      parseTarget rawPath filePrefix developerVolumeBytes developerFilePathBytes = some (volume, path) →
      ∃ value destination, parseDestination value = .ok destination ∧
        parseTarget destination.requestPath filePrefix developerVolumeBytes developerFilePathBytes =
          some (volume, path)) := by
  constructor
  · intro value destination hparse
    obtain ⟨volume, relative, encoded, h, rfl⟩ := parseDestination_eq_ok.1 hparse
    have hcolon : 58 ∉ volume := fun hin => absurd (h.volumeUnits 58 hin) (by decide)
    exact ⟨volume, relative, _, splitDestination_eq h.split, hcolon, (splitDestination_eq h.split).symm, h.target⟩
  · intro rawPath volume path hparse
    have htarget := target_of_parse hparse
    refine ⟨typedDestination volume path, _, parseDestination_eq_ok.2 ⟨_, _, _, htarget.accepts, rfl⟩, ?_⟩
    have hvolume : (volume.map (·.toUInt16)).map (·.toUInt8) = volume := by
      rw [map_map]
      refine (map_congr_left fun byte hbyte => ?_).trans (List.map_id volume)
      exact (volumeCharacter_unit byte (htarget.volumeCharacters byte hbyte)).2.2.2.2.2
    have hagree := htarget.accepts.target.2
    rwa [hvolume, intercalate_splitOn] at hagree

example : (parseDestination [83, 68, 58, 47, 0xe4, 32, 98]).map (·.requestPath) =
    .ok (ascii "/bmx/dev/v1/fs/SD/%84%20b") := by decide

end Bmx.Remote
