import Bmx.Base.Utf8
import Bmx.SdCard.FatPath
import Bmx.Update.FatPathPolicy

/-!
# The two checks of a path

The layout tool checks the paths a release is built with, and the installer checks them again on the device. Both take the
same text, where the device sees it as a C string.
-/

namespace Bmx.SdCard

open Update List

/-- `text.encode()` -/
def encode (text : Text) : Bytes := text.flatMap String.utf8EncodeChar

/-- `ValidateFatRelativePath` of a buffer -/
def devicePathStatus (buffer : Bytes) (maximumPathBytes : Nat) : FatPathValidationStatus :=
  validateFatRelativePath (cText buffer) maximumPathBytes

/-! ### Characters -/

def toByte (character : Char) : UInt8 := UInt8.ofNat character.toNat

variable {character : Char} {text part stem name component : Text}

theorem forall_ascii {P : Char → Prop} (h : ∀ n < 128, P (Char.ofNat n))
    (hascii : character.toNat < 128) : P character := by
  have hcharacter := h character.toNat hascii
  rwa [Char.ofNat_toNat] at hcharacter

theorem encodeChar_eq (character : Char) : String.utf8EncodeChar character = utf8 character.toNat := by
  rw [utf8, Char.ofNat_toNat]

theorem encode_ascii (h : ∀ character ∈ text, character.toNat < 128) : encode text = text.map toByte := by
  induction text with
  | nil => rfl
  | cons character text ih =>
    obtain ⟨hfirst, hrest⟩ := forall_mem_cons.1 h
    rw [encode, flatMap_cons, encodeChar_eq, utf8_ascii hfirst, map_cons, ← ih hrest]
    rfl

theorem encode_beyond (hmem : character ∈ text) (hbeyond : 128 ≤ character.toNat) :
    ∃ byte ∈ encode text, 0x80 ≤ byte := by
  obtain ⟨byte, hbyte⟩ := exists_mem_of_ne_nil _ (@utf8_ne_nil character.toNat)
  refine ⟨byte, mem_flatMap.2 ⟨character, hmem, ?_⟩, utf8_beyond character.valid hbeyond byte hbyte⟩
  rwa [encodeChar_eq]

theorem nul_mem_encode : 0 ∈ encode text ↔ Char.ofNat 0 ∈ text := by
  unfold encode
  rw [mem_flatMap]
  constructor
  · rintro ⟨character, hmem, hzero⟩
    rw [encodeChar_eq] at hzero
    have hnul : character.toNat = 0 := (utf8_zero_mem character.valid).1 hzero
    rwa [← hnul, Char.ofNat_toNat]
  · intro hmem
    exact ⟨_, hmem, by decide⟩

theorem toByte_slash (hascii : character.toNat < 128) : toByte character = slash ↔ character = '/' :=
  forall_ascii (P := fun character => toByte character = slash ↔ character = '/') (by decide) hascii

theorem unsafeCharacter_iff (hascii : character.toNat < 128) :
    unsafeCharacter character = true ↔ character ≠ '/' ∧ portableCharacter (toByte character) = false :=
  forall_ascii (P := fun character => unsafeCharacter character = true ↔
    character ≠ '/' ∧ portableCharacter (toByte character) = false) (by decide) hascii

/-! ### Components -/

def begun (component : Text) : List Text → List Text
  | [] => [component]
  | first :: others => (component ++ first) :: others

theorem begun_cons (component : Text) (hslash : character ≠ '/') (text : Text) :
    begun component (components (character :: text)) = begun (component ++ [character]) (components text) := by
  rw [components, if_neg hslash]
  cases components text with
  | nil => rfl
  | cons first others => rw [begun, begun, append_assoc, singleton_append]

theorem begun_nil (text : Text) : begun [] (components text) = components text := by
  cases text with
  | nil => rfl
  | cons character text =>
    unfold components
    split
    · rfl
    · split <;> rfl

/-- The scan of the device reads the components that the text is split into. -/
theorem scanComponents_iff {allowed : UInt8 → Bool} {valid : Bytes → Bool} {text : Text}
    (hascii : ∀ character ∈ text, character.toNat < 128) (component : Text) :
    scanComponents allowed valid (component.map toByte) (text.map toByte) = true ↔
      (∀ character ∈ text, character ≠ '/' → allowed (toByte character) = true) ∧
        ∀ part ∈ begun component (components text), valid (part.map toByte) = true := by
  induction text generalizing component with
  | nil =>
    have hparts : begun component (components []) = [component] := by
      rw [components, begun, append_nil]
    rw [hparts, map_nil, scanComponents, forall_mem_singleton]
    exact (and_iff_right fun character hmem => absurd hmem not_mem_nil).symm
  | cons character text ih =>
    obtain ⟨hfirst, hrest⟩ := forall_mem_cons.1 hascii
    rw [map_cons, scanComponents, forall_mem_cons]
    by_cases hslash : character = '/'
    · have hnext := ih hrest []
      rw [begun_nil, map_nil] at hnext
      have hparts : begun component (components (character :: text)) = component :: components text := by
        rw [components, if_pos hslash, begun, append_nil]
      rw [if_pos ((toByte_slash hfirst).2 hslash), Bool.and_eq_true, hnext, hparts, forall_mem_cons]
      constructor
      · rintro ⟨hvalid, hallowed, hothers⟩
        exact ⟨⟨fun hne => absurd hslash hne, hallowed⟩, hvalid, hothers⟩
      · rintro ⟨⟨-, hallowed⟩, hvalid, hothers⟩
        exact ⟨hvalid, hallowed, hothers⟩
    · have hnext := ih hrest (component ++ [character])
      rw [map_append, map_singleton] at hnext
      rw [if_neg (mt (toByte_slash hfirst).1 hslash), Bool.and_eq_true, hnext, begun_cons component hslash]
      constructor
      · rintro ⟨hallow, hallowed, hvalid⟩
        exact ⟨⟨fun _ => hallow, hallowed⟩, hvalid⟩
      · rintro ⟨⟨hallow, hallowed⟩, hvalid⟩
        exact ⟨hallow hslash, hallowed, hvalid⟩

theorem mem_of_component (hpart : part ∈ components text) (hmem : character ∈ part) : character ∈ text := by
  induction text generalizing part with
  | nil =>
    rw [components, mem_singleton] at hpart
    exact absurd hmem (hpart ▸ not_mem_nil)
  | cons first text ih =>
    unfold components at hpart
    split at hpart
    · rcases mem_cons.1 hpart with rfl | hpart
      · cases hmem
      · exact mem_cons_of_mem _ (ih hpart hmem)
    · cases hparts : components text with
      | nil =>
        rw [hparts, mem_singleton] at hpart
        subst hpart
        exact mem_singleton.1 hmem ▸ mem_cons_self
      | cons part' others =>
        rw [hparts] at hpart
        rcases mem_cons.1 hpart with rfl | hpart
        · rcases mem_cons.1 hmem with rfl | hmem
          · exact mem_cons_self
          · exact mem_cons_of_mem _ (ih (hparts ▸ mem_cons_self) hmem)
        · exact mem_cons_of_mem _ (ih (hparts ▸ mem_cons_of_mem _ hpart) hmem)

/-! ### Names of devices -/

theorem asciiLower_toUpper (hascii : character.toNat < 128) :
    asciiLower (toByte character.toUpper) = asciiLower (toByte character) :=
  forall_ascii (P := fun character => asciiLower (toByte character.toUpper) = asciiLower (toByte character))
    (by decide) hascii

/-- The upper case of a character from its byte in lower case. -/
def upperOf (byte : UInt8) : Char := (Char.ofNat byte.toNat).toUpper

theorem upperOf_asciiLower (hascii : character.toNat < 128) :
    upperOf (asciiLower (toByte character)) = character.toUpper :=
  forall_ascii (P := fun character => upperOf (asciiLower (toByte character)) = character.toUpper)
    (by decide) hascii

/-- A text is a name in upper case just if their bytes agree up to case. -/
theorem upper_eq_iff (hstem : ∀ character ∈ stem, character.toNat < 128)
    (hname : ∀ character ∈ name, character.toNat < 128 ∧ character.toUpper = character) :
    upper stem = name ↔ foldEqual (stem.map toByte) (name.map toByte) = true := by
  rw [foldEqual_iff]
  induction stem generalizing name with
  | nil => cases name <;> simp [upper, fold]
  | cons character stem ih =>
    obtain ⟨hfirst, hrest⟩ := forall_mem_cons.1 hstem
    cases name with
    | nil => simp [upper, fold]
    | cons character' name =>
      obtain ⟨⟨hascii, hupper⟩, hname⟩ := forall_mem_cons.1 hname
      have hothers := ih hrest hname
      simp only [upper, fold] at hothers
      simp only [upper, fold, map_cons, cons.injEq, hothers]
      refine and_congr_left fun _ => ⟨?_, fun hsame => ?_⟩
      · rintro rfl
        exact (asciiLower_toUpper hfirst).symm
      · rw [← upperOf_asciiLower hfirst, hsame, upperOf_asciiLower hascii, hupper]

theorem fatReserved_upper (hname : name ∈ fatReserved) :
    ∀ character ∈ name, character.toNat < 128 ∧ character.toUpper = character := by
  have hall : fatReserved.all (fun name => name.all fun character =>
      character.toNat < 128 && character.toUpper = character) = true := by decide
  intro character hmem
  have hsome := all_eq_true.1 (all_eq_true.1 hall name hname) character hmem
  simpa using hsome

theorem digit_iff {byte : UInt8} :
    (∃ digit ∈ digits, asciiLower byte = asciiLower (toByte digit)) ↔ 49 ≤ byte ∧ byte ≤ 57 :=
  forall_byte (P := fun byte => (∃ digit ∈ digits, asciiLower byte = asciiLower (toByte digit)) ↔ 49 ≤ byte ∧ byte ≤ 57)
    (by decide +kernel) byte

theorem port_iff {stem : Bytes} {port : Text} (hport : port.length = 3) :
    (∃ digit ∈ digits, foldEqual stem ((port ++ [digit]).map toByte) = true) ↔
      stem.length = 4 ∧ foldEqual (stem.take 3) (port.map toByte) = true ∧ 49 ≤ stem.getD 3 0 ∧ stem.getD 3 0 ≤ 57 := by
  have hlength (digit : Char) (hsame : foldEqual stem ((port ++ [digit]).map toByte) = true) : stem.length = 4 := by
    have hfold := congrArg List.length (foldEqual_iff.1 hsame)
    rw [length_fold, length_fold, length_map, length_append, hport] at hfold
    exact hfold
  have hsplit (hfour : stem.length = 4) : stem = stem.take 3 ++ [stem.getD 3 0] := by
    match stem, hfour with
    | [a, b, c, d], _ => rfl
  have hparts (hfour : stem.length = 4) (digit : Char) : foldEqual stem ((port ++ [digit]).map toByte) = true ↔
      foldEqual (stem.take 3) (port.map toByte) = true ∧ asciiLower (stem.getD 3 0) = asciiLower (toByte digit) := by
    have hthree : (fold (stem.take 3)).length = (fold (port.map toByte)).length := by
      rw [length_fold, length_fold, length_map, hport, length_take, hfour]
      rfl
    conv => lhs; rw [hsplit hfour]
    rw [foldEqual_iff, foldEqual_iff, map_append, fold_append, fold_append]
    constructor
    · intro hsame
      obtain ⟨hname, hdigit⟩ := append_inj hsame hthree
      exact ⟨hname, head_eq_of_cons_eq hdigit⟩
    · rintro ⟨hname, hdigit⟩
      rw [hname]
      exact congrArg (fold (port.map toByte) ++ [·]) hdigit
  constructor
  · rintro ⟨digit, hdigit, hsame⟩
    have hfour := hlength digit hsame
    obtain ⟨hname, hlast⟩ := (hparts hfour digit).1 hsame
    exact ⟨hfour, hname, digit_iff.1 ⟨digit, hdigit, hlast⟩⟩
  · rintro ⟨hfour, hname, hlast⟩
    obtain ⟨digit, hdigit, hsame⟩ := digit_iff.2 hlast
    exact ⟨digit, hdigit, (hparts hfour digit).2 ⟨hname, hsame⟩⟩

theorem takeWhile_stem (hascii : ∀ character ∈ part, character.toNat < 128) :
    (part.map toByte).takeWhile (· != 46) = (part.takeWhile (· ≠ '.')).map toByte := by
  induction part with
  | nil => rfl
  | cons character part ih =>
    obtain ⟨hfirst, hrest⟩ := forall_mem_cons.1 hascii
    have hdot : (toByte character != 46) = decide (character ≠ '.') :=
      forall_ascii (P := fun character => (toByte character != 46) = decide (character ≠ '.')) (by decide) hfirst
    rw [map_cons, takeWhile_cons, takeWhile_cons, hdot, ih hrest]
    split <;> rfl

theorem mem_fatReserved (hstem : ∀ character ∈ stem, character.toNat < 128) :
    upper stem ∈ fatReserved ↔ ∃ name ∈ fatReserved, foldEqual (stem.map toByte) (name.map toByte) = true := by
  constructor
  · intro hupper
    exact ⟨_, hupper, (upper_eq_iff hstem (fatReserved_upper hupper)).1 rfl⟩
  · rintro ⟨name, hname, hsame⟩
    rwa [(upper_eq_iff hstem (fatReserved_upper hname)).2 hsame]

theorem exists_fatReserved {P : Text → Prop} : (∃ name ∈ fatReserved, P name) ↔
    (∃ name ∈ [textOf "CON", textOf "PRN", textOf "AUX", textOf "NUL"], P name) ∨
      (∃ digit ∈ digits, P (textOf "COM" ++ [digit])) ∨ ∃ digit ∈ digits, P (textOf "LPT" ++ [digit]) := by
  unfold fatReserved
  simp only [mem_append, mem_map, or_and_right, exists_or, or_assoc]
  exact or_congr_right (or_congr exists_exists_and_eq_and exists_exists_and_eq_and)

theorem isReservedStem_iff (hascii : ∀ character ∈ part, character.toNat < 128) :
    isReservedStem (part.map toByte) = true ↔ upper (part.takeWhile (· ≠ '.')) ∈ fatReserved := by
  have hstem : ∀ character ∈ part.takeWhile (· ≠ '.'), character.toNat < 128 :=
    fun character hmem => hascii character (takeWhile_subset _ hmem)
  rw [mem_fatReserved hstem, exists_fatReserved, port_iff rfl, port_iff rfl]
  unfold isReservedStem
  rw [takeWhile_stem hascii]
  have hfixed : [ascii "CON", ascii "PRN", ascii "AUX", ascii "NUL"] =
      [textOf "CON", textOf "PRN", textOf "AUX", textOf "NUL"].map (List.map toByte) := rfl
  have hcom : ascii "COM" = (textOf "COM").map toByte := rfl
  have hlpt : ascii "LPT" = (textOf "LPT").map toByte := rfl
  simp only [hfixed, hcom, hlpt, Bool.or_eq_true, Bool.and_eq_true, any_map, any_eq_true, Function.comp_apply,
    beq_iff_eq, decide_eq_true_iff]
  refine or_congr_right ⟨?_, ?_⟩
  · rintro ⟨⟨⟨hfour, hcom | hlpt⟩, hlow⟩, hhigh⟩
    · exact .inl ⟨hfour, hcom, hlow, hhigh⟩
    · exact .inr ⟨hfour, hlpt, hlow, hhigh⟩
  · rintro (⟨hfour, hcom, hlow, hhigh⟩ | ⟨hfour, hlpt, hlow, hhigh⟩)
    · exact ⟨⟨⟨hfour, .inl hcom⟩, hlow⟩, hhigh⟩
    · exact ⟨⟨⟨hfour, .inr hlpt⟩, hlow⟩, hhigh⟩

/-! ### The two checks -/

theorem dropBlanks_iff : component.dropWhile (· = ' ') = component ↔ component.head? ≠ some ' ' := by
  cases component with
  | nil => exact iff_of_true rfl nofun
  | cons character component =>
    rw [dropWhile_cons, head?_cons, ne_eq, Option.some_inj]
    split
    · rename_i hblank
      have hsuffix := (dropWhile_suffix (fun character => decide (character = ' ')) (l := component)).length_le
      refine iff_of_false (fun hsame => ?_) (not_not.2 (of_decide_eq_true hblank))
      rw [hsame, length_cons] at hsuffix
      omega
    · rename_i hblank
      exact iff_of_true rfl fun hsame => hblank (decide_eq_true hsame)

theorem strip_eq_iff : component = strip component ↔ component.head? ≠ some ' ' ∧ component.getLast? ≠ some ' ' := by
  unfold strip
  rw [← dropBlanks_iff, ← head?_reverse, ← dropBlanks_iff]
  constructor
  · intro hsame
    have hfirst := dropWhile_suffix (fun character => decide (character = ' ')) (l := component)
    have hlast := dropWhile_suffix (fun character => decide (character = ' '))
      (l := (component.dropWhile (· = ' ')).reverse)
    have hlength := congrArg List.length hsame
    rw [length_reverse] at hlength
    have hle := hlast.length_le
    rw [length_reverse] at hle
    have hwhole : component.dropWhile (· = ' ') = component := hfirst.eq_of_length_le (by omega)
    rw [hwhole] at hsame
    exact ⟨hwhole, by conv => rhs; rw [hsame, reverse_reverse]⟩
  · rintro ⟨hfirst, hlast⟩
    rw [hfirst, hlast, reverse_reverse]

theorem toByte_inj {character' : Char} (hascii : character.toNat < 128) (hascii' : character'.toNat < 128) :
    toByte character = toByte character' ↔ character = character' := by
  constructor
  · intro hsame
    have htoNat := congrArg UInt8.toNat hsame
    unfold toByte at htoNat
    rw [UInt8.toNat_ofNat_of_lt' (show character.toNat < 256 by omega),
      UInt8.toNat_ofNat_of_lt' (show character'.toNat < 256 by omega)] at htoNat
    exact Char.toNat_inj.1 htoNat
  · rintro rfl
    rfl

theorem map_toByte_eq {found : Option Char} (hascii : ∀ character ∈ found, character.toNat < 128)
    (hcharacter : character.toNat < 128) : found.map toByte = some (toByte character) ↔ found = some character := by
  cases found with
  | none => exact iff_of_false nofun nofun
  | some first => rw [Option.map_some, Option.some_inj, Option.some_inj, toByte_inj (hascii first rfl) hcharacter]

theorem unsafeComponent_iff (hascii : ∀ character ∈ part, character.toNat < 128) :
    unsafeComponent part = true ↔ ¬ portableComponentValid (part.map toByte) = true := by
  have hlast (character : Char) (hcharacter : character.toNat < 128) :
      (part.map toByte).getLast? = some (toByte character) ↔ part.getLast? = some character := by
    rw [getLast?_map]
    exact map_toByte_eq (fun found hfound => hascii found (mem_of_getLast? hfound)) hcharacter
  have hfirst (character : Char) (hcharacter : character.toNat < 128) :
      (part.map toByte).head? = some (toByte character) ↔ part.head? = some character := by
    rw [head?_map]
    exact map_toByte_eq (fun found hfound => hascii found (mem_of_head? hfound)) hcharacter
  have hblank : (part.map toByte).getLast? = some 32 ↔ part.getLast? = some ' ' := hlast ' ' (by decide)
  have hdot : (part.map toByte).getLast? = some 46 ↔ part.getLast? = some '.' := hlast '.' (by decide)
  have hhead : (part.map toByte).head? = some 32 ↔ part.head? = some ' ' := hfirst ' ' (by decide)
  have hone : part = ['.'] → part.getLast? = some '.' := fun hpart => by rw [hpart]; rfl
  have htwo : part = ['.', '.'] → part.getLast? = some '.' := fun hpart => by rw [hpart]; rfl
  unfold unsafeComponent portableComponentValid componentShapeValid
  simp only [decide_eq_true_iff, ne_eq, strip_eq_iff, Bool.and_eq_true, bne_iff_ne, hblank, hdot, hhead, Bool.not_eq_true',
    ← Bool.not_eq_true, isReservedStem_iff hascii, length_map, length_eq_zero_iff, gt_iff_lt, ← Nat.not_le]
  constructor
  · rintro (hempty | hpart | hpart | hblank | hdot | hlong | hreserved) ⟨⟨⟨⟨⟨hne, hfits⟩, htail⟩, hperiod⟩, hlead⟩, hstem⟩
    · exact hne hempty
    · exact hperiod (hone hpart)
    · exact hperiod (htwo hpart)
    · exact hblank ⟨hlead, htail⟩
    · exact hperiod hdot
    · exact hlong hfits
    · exact hstem hreserved
  · intro hvalid
    by_contra hsafe
    simp only [not_or, not_not] at hsafe
    obtain ⟨hne, -, -, ⟨hlead, htail⟩, hperiod, hfits, hstem⟩ := hsafe
    exact hvalid ⟨⟨⟨⟨⟨hne, hfits⟩, htail⟩, hperiod⟩, hlead⟩, hstem⟩

theorem validateFatRelativePathBytes_iff {path : Bytes} {maximumPathBytes : Nat} (hmaximum : maximumPathBytes ≠ 0) :
    validateFatRelativePathBytes path maximumPathBytes = .ok ↔
      path ≠ [] ∧ path.length ≤ maximumPathBytes ∧ path.head? ≠ some slash ∧ path.getLast? ≠ some slash ∧
        scanComponents portableCharacter portableComponentValid [] path = true := by
  unfold validateFatRelativePathBytes
  rw [if_neg hmaximum]
  split
  · rename_i hempty
    exact iff_of_false nofun fun h => h.1 (length_eq_zero_iff.1 hempty)
  rename_i hempty
  split
  · rename_i hlong
    exact iff_of_false nofun fun h => by omega
  split
  · rename_i hslash
    exact iff_of_false nofun fun h => hslash.elim h.2.2.1 h.2.2.2.1
  rename_i hlong hslash
  obtain ⟨hfirst, hlast⟩ := not_or.1 hslash
  split
  · rename_i hscan
    exact iff_of_true rfl ⟨mt length_eq_zero_iff.2 hempty, by omega, hfirst, hlast, hscan⟩
  · rename_i hscan
    exact iff_of_false nofun fun h => hscan h.2.2.2.2

/-- A text of ASCII is safe for the tool just if the device takes its bytes. -/
theorem fatSafe_iff (hascii : ∀ character ∈ text, character.toNat < 128) :
    FatSafe text ↔ validateFatRelativePathBytes (encode text) 240 = .ok := by
  have hscan := @scanComponents_iff portableCharacter portableComponentValid text hascii []
  rw [map_nil, begun_nil] at hscan
  have hcharacters : (∀ character ∈ text, ¬ unsafeCharacter character = true) ↔
      ∀ character ∈ text, character ≠ '/' → portableCharacter (toByte character) = true := by
    refine forall₂_congr fun character hmem => ?_
    rw [unsafeCharacter_iff (hascii character hmem), not_and, Bool.not_eq_false]
  have hcomponents : (∀ part ∈ components text, ¬ unsafeComponent part = true) ↔
      ∀ part ∈ components text, portableComponentValid (part.map toByte) = true := by
    refine forall₂_congr fun part hpart => ?_
    rw [unsafeComponent_iff fun character hmem => hascii character (mem_of_component hpart hmem), not_not]
  have hfirst : (text.map toByte).head? = some slash ↔ text.head? = some '/' := by
    rw [head?_map]
    exact map_toByte_eq (fun found hfound => hascii found (mem_of_head? hfound)) (by decide : '/'.toNat < 128)
  have hlast : (text.map toByte).getLast? = some slash ↔ text.getLast? = some '/' := by
    rw [getLast?_map]
    exact map_toByte_eq (fun found hfound => hascii found (mem_of_getLast? hfound)) (by decide : '/'.toNat < 128)
  unfold FatSafe
  rw [validateFatRelativePathBytes_iff (by decide), encode_ascii hascii, hscan, ← hcharacters, ← hcomponents,
    length_map, any_eq_true, any_eq_true]
  simp only [ne_eq, hfirst, hlast, map_eq_nil_iff, not_or, not_exists, not_and, Nat.not_lt, gt_iff_lt]
  constructor
  · rintro ⟨hempty, -, ⟨hlength, hhead, hend, hsafe⟩, hparts⟩
    exact ⟨hempty, hlength, hhead, hend, hsafe, hparts⟩
  · rintro ⟨hempty, hlength, hhead, hend, hsafe, hparts⟩
    exact ⟨hempty, hascii, ⟨hlength, hhead, hend, hsafe⟩, hparts⟩

/-- The bytes that the device takes are those of the texts that are safe for the tool. -/
theorem fatSafe_encode : FatSafe text ↔ validateFatRelativePathBytes (encode text) 240 = .ok := by
  by_cases hascii : ∀ character ∈ text, character.toNat < 128
  · exact fatSafe_iff hascii
  · push Not at hascii
    obtain ⟨character, hmem, hbeyond⟩ := hascii
    refine iff_of_false (fun hsafe => ?_) fun hok => ?_
    · exact absurd (hsafe.2.1 character hmem) (by omega)
    · obtain ⟨byte, hbyte, hhigh⟩ := encode_beyond hmem hbeyond
      rcases scanComponents_characters (FatRelativePath.scan hok) hbyte with rfl | hportable
      · exact absurd hhigh (by decide)
      · unfold portableCharacter at hportable
        simp only [Bool.and_eq_true, decide_eq_true_iff] at hportable
        exact absurd (UInt8.le_trans hhigh hportable.1.2) (by decide)

theorem nul_notMem_of_fatSafe (hsafe : FatSafe text) : Char.ofNat 0 ∉ text := by
  intro hmem
  apply hsafe.2.2.1
  refine .inr (.inr (.inr (any_eq_true.2 ⟨_, hmem, by decide⟩)))

theorem devicePathStatus_eq (hnul : Char.ofNat 0 ∉ text) :
    devicePathStatus (encode text) 240 = .ok ↔ validateFatRelativePathBytes (encode text) 240 = .ok := by
  unfold devicePathStatus validateFatRelativePath
  rw [cText_eq_iff.2 (mt nul_mem_encode.1 hnul), if_neg (by decide)]
  split
  · rename_i hlong
    exact iff_of_false nofun fun hok => absurd (FatRelativePath.length_pos hok).2 (by omega)
  · rfl

/-- The tool takes a text just if the device takes its bytes by their count, and just if there is no NUL in it and the
device takes it as a C string. -/
theorem fatPath_agrees (path : Text) (place : String) :
    ((∃ result, fatPath path place = .ok result) ↔ validateFatRelativePathBytes (encode path) 240 = .ok) ∧
      ((∃ result, fatPath path place = .ok result) ↔
        Char.ofNat 0 ∉ path ∧ devicePathStatus (encode path) 240 = .ok) := by
  have haccepts : (∃ result, fatPath path place = .ok result) ↔ FatSafe path := by
    constructor
    · rintro ⟨result, hresult⟩
      exact (fatPath_eq_ok.1 hresult).1
    · intro hsafe
      exact ⟨path, fatPath_eq_ok.2 ⟨hsafe, rfl⟩⟩
  rw [haccepts]
  refine ⟨fatSafe_encode, ?_⟩
  constructor
  · intro hsafe
    have hnul := nul_notMem_of_fatSafe hsafe
    exact ⟨hnul, (devicePathStatus_eq hnul).2 (fatSafe_encode.1 hsafe)⟩
  · rintro ⟨hnul, hok⟩
    exact fatSafe_encode.2 ((devicePathStatus_eq hnul).1 hok)

/-- The device takes what comes before a NUL, where the tool refuses the whole text. -/
theorem device_stops_at_nul :
    ¬ ∀ (path : Text) (place : String), (∃ result, fatPath path place = .ok result) ↔
      devicePathStatus (encode path) 240 = .ok := by
  intro h
  have hpath := (h [Char.ofNat 97, Char.ofNat 0, Char.ofNat 98] "path").2 (by decide)
  obtain ⟨result, hresult⟩ := hpath
  exact nul_notMem_of_fatSafe (fatPath_eq_ok.1 hresult).1 (by decide)

end Bmx.SdCard
