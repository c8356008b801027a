import Bmx.Base.Checked
import Mathlib.Data.List.TakeWhile
import Mathlib.Data.Char

/-!
# Paths on the card

A path is text with slashes between its components. What goes onto the card has to be safe on a FAT volume,
which folds the case of its names.
-/

namespace Bmx.SdCard

open List

/-- The code points of a string. -/
abbrev Text := List Char

/-- `text.split("/")`. -/
def components : Text → List Text
  | [] => [[]]
  | character :: rest =>
    if character = '/' then [] :: components rest
    else
      match components rest with
      | [] => [[character]]
      | first :: others => (character :: first) :: others

/-- `path.rsplit("/", 1)[-1]`. -/
def basename (path : Text) : Text := (path.reverse.takeWhile (· ≠ '/')).reverse

/-- `path.rpartition("/")[0]`. -/
def parent (path : Text) : Text := ((path.reverse.dropWhile (· ≠ '/')).drop 1).reverse

/-- `path.split("/", 1)[0]`. -/
def topRoot (path : Text) : Text := path.takeWhile (· ≠ '/')

/-- The loop that adds each parent, as long as there is one. A parent is shorter than its path. -/
def parentsLoop : Nat → Text → List Text
  | 0, _ => []
  | fuel + 1, path => if parent path = [] then [] else parent path :: parentsLoop fuel (parent path)

def parents (path : Text) : List Text := parentsLoop path.length path

theorem slash_notMem_basename (path : Text) : '/' ∉ basename path := by
  unfold basename
  intro hmem
  have hne := mem_takeWhile_imp (mem_reverse.1 hmem)
  simp at hne

variable {path directory value result : Text} {place : String}

theorem parent_append_basename (h : '/' ∈ path) : path = parent path ++ '/' :: basename path := by
  have hrest : path.reverse.dropWhile (· ≠ '/') ≠ [] := by
    intro hnil
    rw [dropWhile_eq_nil_iff] at hnil
    simpa using hnil '/' (mem_reverse.2 h)
  have hhead := head_dropWhile_not (fun character => decide (character ≠ '/')) hrest
  have hsplit := takeWhile_append_dropWhile (p := fun character => decide (character ≠ '/')) (l := path.reverse)
  rw [← cons_head_tail hrest] at hsplit
  have hslash : (path.reverse.dropWhile (· ≠ '/')).head hrest = '/' := by simpa using hhead
  rw [hslash] at hsplit
  have := congrArg List.reverse hsplit
  unfold parent basename
  simpa using this.symm

theorem parent_of_notMem (h : '/' ∉ path) : parent path = [] := by
  have hnil : path.reverse.dropWhile (· ≠ '/') = [] := by
    rw [dropWhile_eq_nil_iff]
    intro character hmem
    have hne : character ≠ '/' := fun heq => h (heq ▸ mem_reverse.1 hmem)
    simpa using hne
  unfold parent
  rw [hnil]
  rfl

theorem prefix_parent (h : '/' ∈ path) :
    directory ++ ['/'] <+: path ↔ directory = parent path ∨ directory ++ ['/'] <+: parent path := by
  have hsplit := parent_append_basename h
  constructor
  · rintro ⟨rest, hrest⟩
    rw [hsplit, append_assoc, append_eq_append_iff] at hrest
    rcases hrest with ⟨more, hparent, htail⟩ | ⟨more, hdirectory, htail⟩
    · cases more with
      | nil => exact .inl (by simpa using hparent.symm)
      | cons character more =>
        simp only [cons_append, nil_append, cons.injEq] at htail
        exact .inr ⟨more, by rw [hparent, ← htail.1]; simp⟩
    · cases more with
      | nil => exact .inl (by simpa using hdirectory)
      | cons character more =>
        simp only [cons_append, nil_append, cons.injEq] at htail
        exact absurd (htail.2 ▸ by simp) (slash_notMem_basename path)
  · rintro (rfl | ⟨rest, hrest⟩)
    · exact ⟨basename path, by rw [append_assoc]; exact hsplit.symm⟩
    · refine ⟨rest ++ '/' :: basename path, ?_⟩
      rw [← append_assoc, hrest]
      exact hsplit.symm

theorem length_parent_lt (h : '/' ∈ path) : (parent path).length < path.length := by
  have hlength := congrArg List.length (parent_append_basename h)
  rw [length_append, length_cons] at hlength
  omega

theorem mem_parentsLoop {fuel : Nat} (hfuel : path.length ≤ fuel) :
    directory ∈ parentsLoop fuel path ↔ directory ≠ [] ∧ directory ++ ['/'] <+: path := by
  induction fuel generalizing path with
  | zero =>
    obtain rfl := length_eq_zero_iff.1 (Nat.le_zero.1 hfuel)
    simp [parentsLoop]
  | succ fuel ih =>
    unfold parentsLoop
    by_cases hslash : '/' ∈ path
    · rw [prefix_parent hslash]
      split_ifs with hempty
      · simp [hempty]
      · rw [mem_cons, ih (by have := length_parent_lt hslash; omega)]
        constructor
        · rintro (rfl | ⟨hne, habove⟩)
          · exact ⟨hempty, .inl rfl⟩
          · exact ⟨hne, .inr habove⟩
        · tauto
    · rw [if_pos (parent_of_notMem hslash)]
      have hnot : ¬directory ++ ['/'] <+: path := fun habove => hslash (habove.subset (by simp))
      simp [hnot]

theorem mem_parents : directory ∈ parents path ↔ directory ≠ [] ∧ directory ++ ['/'] <+: path :=
  mem_parentsLoop (Nat.le_refl _)

theorem mem_parents_trans {above : Text} (h : directory ∈ parents path) (habove : above ∈ parents directory) :
    above ∈ parents path := by
  rw [mem_parents] at h habove ⊢
  exact ⟨habove.1, habove.2.trans ((prefix_append directory ['/']).trans h.2)⟩

/-- `text.lower()`. Only ASCII paths are ever accepted. -/
def lower (path : Text) : Text := path.map Char.toLower

def upper (path : Text) : Text := path.map Char.toUpper

/-- `f"{directory}/{name}"`. -/
def join (directory name : Text) : Text := directory ++ '/' :: name

def textOf (literal : String) : Text := literal.toList

def fatForbidden : List Char := ['\"', '*', ':', '<', '>', '?', '\\', '|']

def digits : List Char := ['1', '2', '3', '4', '5', '6', '7', '8', '9']

def fatReserved : List Text :=
  [textOf "CON", textOf "PRN", textOf "AUX", textOf "NUL"] ++
    digits.map (fun digit => textOf "COM" ++ [digit]) ++ digits.map fun digit => textOf "LPT" ++ [digit]

/-- `component.strip()`, of printable text. -/
def strip (component : Text) : Text := ((component.dropWhile (· = ' ')).reverse.dropWhile (· = ' ')).reverse

def unsafeComponent (component : Text) : Bool :=
  component = [] ∨ component = ['.'] ∨ component = ['.', '.'] ∨ component ≠ strip component ∨
    component.getLast? = some '.' ∨ component.length > 255 ∨
    upper (component.takeWhile (· ≠ '.')) ∈ fatReserved

def unsafeCharacter (character : Char) : Bool :=
  character.toNat < 0x20 ∨ character.toNat > 0x7E ∨ character ∈ fatForbidden

/-- What is wrong, and with what. -/
inductive SdLayoutError
  | notTable (place : String)
  | missingField (place field : String)
  | unknownField (place : String) (field : Text)
  | notText (place : String)
  | notBoolean (place : String)
  | notArray (place : String)
  | duplicateItem (place : String)
  | notSorted (place : String)
  | unknownValue (place : String) (value : Text)
  | notPrintableAscii (place : String) (text : Text)
  | unsafeFatPath (place : String) (text : Text)
  | unsafeFatComponent (place : String) (text : Text)
  | notReference (place : String)
  | unknownAlias (place : String) (name : Text)
  | notSimpleGlob (place : String) (text : Text)
  | misplacedDoubleStar (place : String)
  | misplacedPattern (place : String)
  | failed (message : String) (about : List Text)

/-- `_text`, of a value that is a string. -/
def text (value : Text) (place : String) : Except SdLayoutError Text :=
  if value = [] then .error (.notText place) else .ok value

def fatPath (value : Text) (place : String) : Except SdLayoutError Text := do
  let value ← text value place
  if value.any (fun character => character.toNat ≥ 128) then .error (.notPrintableAscii place value)
  else if value.length > 240 ∨ value.head? = some '/' ∨ value.getLast? = some '/' ∨ value.any unsafeCharacter then
    .error (.unsafeFatPath place value)
  else if (components value).any unsafeComponent then .error (.unsafeFatComponent place value)
  else .ok value

/-- A path whose components are names of a FAT volume. -/
def FatSafe (path : Text) : Prop :=
  path ≠ [] ∧ (∀ character ∈ path, character.toNat < 128) ∧
    ¬(path.length > 240 ∨ path.head? = some '/' ∨ path.getLast? = some '/' ∨ path.any unsafeCharacter) ∧
    ¬(components path).any unsafeComponent

instance (path : Text) : Decidable (FatSafe path) := inferInstanceAs (Decidable (_ ∧ _))

theorem text_eq_ok : text value place = .ok result ↔ value ≠ [] ∧ result = value := by
  unfold text
  split_ifs with hempty
  · simp [hempty]
  · simp [hempty, eq_comm (a := result)]

theorem fatPath_eq_ok : fatPath value place = .ok result ↔ FatSafe value ∧ result = value := by
  unfold fatPath FatSafe
  rw [bind_eq_ok]
  constructor
  · rintro ⟨value', htext, hchecks⟩
    obtain ⟨hnonempty, rfl⟩ := text_eq_ok.mp htext
    split_ifs at hchecks with hascii hsafe hcomponents
    refine ⟨⟨hnonempty, ?_, hsafe, hcomponents⟩, (Except.ok.inj hchecks).symm⟩
    simpa using hascii
  · rintro ⟨⟨hnonempty, hascii, hsafe, hcomponents⟩, rfl⟩
    refine ⟨result, text_eq_ok.mpr ⟨hnonempty, rfl⟩, ?_⟩
    rw [if_neg (by simpa using hascii), if_neg hsafe, if_neg hcomponents]

def sourceReference (value : Text) (place : String) (aliases : List Text) : Except SdLayoutError Text := do
  let value ← text value place
  if value.head? = some '/' ∨ '\\' ∈ value ∨ Char.ofNat 0 ∈ value then .error (.notReference place)
  else if (components value).headD [] ∉ aliases then .error (.unknownAlias place ((components value).headD []))
  else if (components value).any fun component => component = [] ∨ component = ['.'] ∨ component = ['.', '.'] then
    .error (.notReference place)
  else .ok value

/-- `_glob`. -/
def globPattern (value : Text) (place : String) : Except SdLayoutError Text := do
  let value ← text value place
  if value.head? = some '/' ∨ value.getLast? = some '/' ∨ '\\' ∈ value ∨ Char.ofNat 0 ∈ value ∨ '[' ∈ value ∨
      ']' ∈ value ∨ value.any (fun character => character ∈ fatForbidden ∧ character ∉ ['*', '?', '\\']) ∨
      (components value).any (fun component => component = [] ∨ component = ['.'] ∨ component = ['.', '.']) then
    .error (.notSimpleGlob place value)
  else if value.any fun character => character.toNat < 0x20 ∨ character.toNat > 0x7E then
    .error (.notPrintableAscii place value)
  else .ok value

def targetPattern (value : Text) (place : String) : Except SdLayoutError Text := do
  let value ← text value place
  if '*' ∉ value ∧ '?' ∉ value then fatPath value place
  else do
    let pattern ← globPattern value place
    if pattern.take 3 = textOf "**/" then
      if '/' ∈ pattern.drop 3 ∨ pattern.drop 3 = [] then .error (.misplacedDoubleStar place) else .ok pattern
    else if '/' ∈ pattern then .error (.misplacedPattern place)
    else .ok pattern

/-- `_ALIAS_RE`. -/
def aliasName (name : Text) : Bool :=
  match name with
  | [] => false
  | first :: rest =>
    first.isLower ∧ rest.length ≤ 63 ∧
      rest.all fun character => character.isLower ∨ character.isDigit ∨ character = '_' ∨ character = '-'

end Bmx.SdCard
