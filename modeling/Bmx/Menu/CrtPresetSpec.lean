import Mathlib.Data.List.DropRight
import Bmx.Menu.CrtPreset
import Bmx.Switch.BootFilesSpec

/-!
# What a preset file says

A file is good if its settings are: one version, one number for each field, and no line that is malformed. The parser
takes good files and no others, as long as it reads the lines whole. A short line with a NUL and a last line that
fills the buffer are not read whole.
-/

namespace Bmx.CrtPreset

open List Option

open Switch (isSpace cString isDigit digitsValue)

/-! ### Numbers -/

def numberOf (text : Bytes) : Option Int :=
  match strtol text with
  | some (number, rest) => if rest.dropWhile Switch.isSpace = [] then some number else none
  | none => none

variable {long : LongRange} {text key value line other file : Bytes} {number exact : Int} {lines : List PresetLine}
  {fields : List PresetField} {kind : Int → Prop} {before after texts : List Bytes} {s : PresetState}
  {read : Bytes × Bool} {failure : Failure}

theorem parseInteger_eq_none : parseInteger long text = none ↔ numberOf text = none := by
  unfold parseInteger numberOf
  cases strtol text with
  | none => simp
  | some parsed =>
    by_cases hrest : parsed.2.dropWhile Switch.isSpace = []
    · simp only [hrest, ne_eq, not_true_eq_false, if_false, if_true]
      split <;> simp
    · simp [hrest]

theorem strtol_sign {rest : Bytes} (htrimmed : text.dropWhile Switch.isSpace = text)
    (h : strtol text = some (number, rest)) : (text.head? = some 45 → number ≤ 0) ∧ (text.head? ≠ some 45 → 0 ≤ number) := by
  simp only [strtol, htrimmed] at h
  generalize (if text.head? = some 45 ∨ text.head? = some 43 then text.tail else text) = digits at h
  by_cases hdigits : digits.takeWhile isDigit = []
  · simp only [hdigits, if_true] at h
    exact absurd h (by simp)
  · simp only [hdigits, if_false, some.injEq, Prod.mk.injEq] at h
    obtain ⟨hnumber, -⟩ := h
    constructor
    · intro hsign
      rw [if_pos hsign] at hnumber
      omega
    · intro hsign
      rw [if_neg hsign] at hnumber
      omega

/-- Numbers below the range of `int` are clamped alike. -/
theorem clampField_below (field : PresetField) (hnumber : number ≤ -2 ^ 31) (hexact : exact ≤ number) :
    clampField field number = clampField field exact := by
  have hmin := field.min_int
  have hmax := field.max_int
  unfold IsInt at hmin hmax
  simp only [clampField]
  split_ifs <;> omega

theorem clampField_above (field : PresetField) (hnumber : 2 ^ 31 - 1 ≤ number)
    (hexact : number ≤ exact) : clampField field number = clampField field exact := by
  have hmin := field.min_int
  have hmax := field.max_int
  unfold IsInt at hmin hmax
  simp only [clampField]
  split_ifs <;> omega

/-- Cutting a number to the range of `long` changes neither its clamped value nor whether it is the version. -/
theorem parseInteger_some (htrimmed : text.dropWhile Switch.isSpace = text)
    (h : parseInteger long text = some number) : ∃ exact, numberOf text = some exact ∧
      (∀ field, clampField field number = clampField field exact) ∧ (number = formatVersion ↔ exact = formatVersion) := by
  unfold parseInteger at h
  unfold numberOf
  cases hparsed : strtol text with
  | none => simp [hparsed] at h
  | some parsed =>
    obtain ⟨exact, rest⟩ := parsed
    have hsign := strtol_sign htrimmed hparsed
    have hlong := long.int_le
    have hmin : long.min = -long.max - 1 := rfl
    have hversion : formatVersion = 1 := rfl
    simp only [hparsed] at h
    by_cases hrest : rest.dropWhile Switch.isSpace = []
    · rw [if_neg (not_not_intro hrest)] at h
      refine ⟨exact, by simp [hrest], ?_⟩
      by_cases hrange : exact < long.min ∨ long.max < exact
      · rw [if_pos hrange] at h
        by_cases hminus : text.head? = some 45
        · have hle := hsign.1 hminus
          rw [if_pos hminus, some.injEq] at h
          exact ⟨fun field => clampField_below field (by omega) (by omega), by omega⟩
        · have hge := hsign.2 hminus
          rw [if_neg hminus, some.injEq] at h
          exact ⟨fun field => clampField_above field (by omega) (by omega), by omega⟩
      · rw [if_neg hrange, some.injEq] at h
        rw [h]
        exact ⟨fun field => rfl, Iff.rfl⟩
    · rw [if_pos hrest] at h
      exact absurd h (by simp)

/-! ### Settings -/

/-- The texts under a key. -/
def valuesOf (key : Bytes) (lines : List PresetLine) : List Bytes :=
  lines.filterMap fun line =>
    match line with
    | .setting other value => if other = key then some value else none
    | _ => none

@[simp] theorem valuesOf_append (key : Bytes) (before after : List PresetLine) :
    valuesOf key (before ++ after) = valuesOf key before ++ valuesOf key after := filterMap_append

theorem valuesOf_setting (key other value : Bytes) :
    valuesOf key [.setting other value] = if other = key then [value] else [] := by
  by_cases h : other = key <;> simp [valuesOf, h]

theorem valuesOf_perm {others : List PresetLine} (h : lines.Perm others) (key : Bytes) :
    (valuesOf key lines).Perm (valuesOf key others) := h.filterMap _

/-- There is one text and its number is of a kind. -/
def OneNumber (kind : Int → Prop) (texts : List Bytes) : Prop :=
  ∃ text number, texts = [text] ∧ numberOf text = some number ∧ kind number

/-- No line so far is a reason to refuse the file. -/
structure FaultFree (fields : List PresetField) (lines : List PresetLine) : Prop where
  wellFormed : ∀ key, PresetLine.malformed key ∉ lines
  version : valuesOf versionKey lines = [] ∨ OneNumber (· = formatVersion) (valuesOf versionKey lines)
  settings : ∀ field ∈ fields, field.key ≠ versionKey →
    valuesOf field.key lines = [] ∨ OneNumber (fun _ => True) (valuesOf field.key lines)

/-- A file with these lines has one version and one number for each field. -/
structure GoodPreset (fields : List PresetField) (lines : List PresetLine) : Prop where
  wellFormed : ∀ key, PresetLine.malformed key ∉ lines
  version : OneNumber (· = formatVersion) (valuesOf versionKey lines)
  settings : ∀ field ∈ fields, OneNumber (fun _ => True) (valuesOf field.key lines)

theorem GoodPreset.faultFree (h : GoodPreset fields lines) :
    FaultFree fields lines where
  wellFormed := h.wellFormed
  version := Or.inr h.version
  settings := fun field hfield _ => Or.inr (h.settings field hfield)

theorem OneNumber.left
    (h : before ++ after = [] ∨ OneNumber kind (before ++ after)) : before = [] ∨ OneNumber kind before := by
  rcases h with h | ⟨text, number, htexts, hnumber, hkind⟩
  · exact Or.inl (append_eq_nil_iff.1 h).1
  · rcases append_eq_singleton_iff.1 htexts with ⟨hbefore, -⟩ | ⟨hbefore, -⟩
    · exact Or.inl hbefore
    · exact Or.inr ⟨text, number, hbefore, hnumber, hkind⟩

/-- What is no reason to refuse a file is none to refuse its beginning. -/
theorem FaultFree.left {before after : List PresetLine}
    (h : FaultFree fields (before ++ after)) : FaultFree fields before where
  wellFormed := fun key hmem => h.wellFormed key (mem_append_left _ hmem)
  version := OneNumber.left (by simpa using h.version)
  settings := fun field hfield hkey => OneNumber.left (by simpa using h.settings field hfield hkey)

theorem OneNumber.perm {others : List Bytes} (h : OneNumber kind texts)
    (hperm : texts.Perm others) : OneNumber kind others := by
  obtain ⟨text, number, rfl, hnumber, hkind⟩ := h
  exact ⟨text, number, singleton_perm.1 hperm |>.symm, hnumber, hkind⟩

/-! ### The loop -/

theorem dropWhile_trim (text : Bytes) : (trim text).dropWhile Switch.isSpace = trim text := by
  have hpart : trimRight (trimLeft text) <+: trimLeft text := rdropWhile_prefix Switch.isSpace _
  cases htext : trim text with
  | nil => rfl
  | cons c rest =>
    have hhead : (trimLeft text).head? = some c := by
      have hcons : c :: rest <+: trimLeft text := by
        rw [← htext]
        exact hpart
      obtain ⟨more, hmore⟩ := hcons
      rw [← hmore]
      rfl
    have hc : Switch.isSpace c = false := by
      have hspace := head?_dropWhile_not Switch.isSpace text
      rw [trimLeft] at hhead
      rw [hhead] at hspace
      simpa using hspace
    rw [dropWhile_cons_of_neg (by simp [hc])]

theorem splitSetting_trimmed (h : splitSetting text = .setting key value) :
    value.dropWhile Switch.isSpace = value := by
  unfold splitSetting at h
  dsimp only at h
  split at h
  · exact absurd h (by simp)
  · split at h
    · exact absurd h (by simp)
    · rw [← (PresetLine.setting.inj h).2]
      exact dropWhile_trim _

theorem presetLine_trimmed {first : Bool} (h : presetLine first line = .setting key value) :
    value.dropWhile Switch.isSpace = value := by
  unfold presetLine at h
  extract_lets unmarked text at h
  split at h
  · exact absurd h (by simp)
  · exact splitSetting_trimmed h

/-- The field that the settings of its key are for. -/
def Named (fields : List PresetField) (i : Fin fields.length) : Prop :=
  findField fields (fields.get i).key = some i ∧ (fields.get i).key ≠ versionKey

theorem findField_key {i : Fin fields.length} (h : findField fields key = some i) : (fields.get i).key = key := by
  have hfound := (findFinIdx?_eq_some_iff.1 h).1
  simpa using hfound

theorem findField_none (h : findField fields key = none) :
    ∀ field ∈ fields, field.key ≠ key := fun field hfield => by
  have hother := findFinIdx?_eq_none_iff.1 h field hfield
  simpa using hother

/-- What the parser knows of the lines it has taken. -/
structure Held (fields : List PresetField) (lines : List PresetLine) (s : PresetState) : Prop where
  faultFree : FaultFree fields lines
  version : s.versionSeen = true ↔ valuesOf versionKey lines ≠ []
  seen : ∀ i : Fin fields.length, s.seen i = true ↔ Named fields i ∧ valuesOf (fields.get i).key lines ≠ []
  parsed : ∀ (i : Fin fields.length) text number, s.seen i = true → valuesOf (fields.get i).key lines = [text] →
    numberOf text = some number → s.parsedValues i = clampField (fields.get i) number

/-- The lines are accounted for, or one of them is a fault. -/
def Accounts (fields : List PresetField) (lines : List PresetLine) (lineNumber : Nat) : Except Failure PresetState → Prop
  | .ok s => s.lineNumber = lineNumber ∧ Held fields lines s
  | .error failure => (failure.1 ≠ .ok ∧ failure.1 ≠ .lineTooLong) ∧ ¬ FaultFree fields lines

theorem valuesOf_other (h : other ≠ key) (lines : List PresetLine) (value : Bytes) :
    valuesOf key (lines ++ [.setting other value]) = valuesOf key lines := by
  rw [valuesOf_append, valuesOf_setting, if_neg h, append_nil]

theorem valuesOf_self (key : Bytes) (lines : List PresetLine) (value : Bytes) :
    valuesOf key (lines ++ [.setting key value]) = valuesOf key lines ++ [value] := by
  rw [valuesOf_append, valuesOf_setting, if_pos rfl]

theorem wellFormed_setting (h : ∀ key, PresetLine.malformed key ∉ lines) (other value : Bytes) :
    ∀ key, PresetLine.malformed key ∉ lines ++ [.setting other value] := fun key hmem => by
  rcases mem_append.1 hmem with hmem | hmem
  · exact h key hmem
  · simp at hmem

theorem oneNumber_singleton : OneNumber kind [text] ↔ ∃ number, numberOf text = some number ∧ kind number := by
  constructor
  · intro h
    obtain ⟨other, number, htext, hnumber⟩ := h
    rw [singleton_inj.1 htext]
    exact ⟨number, hnumber⟩
  · intro h
    obtain ⟨number, hnumber⟩ := h
    exact ⟨text, number, rfl, hnumber⟩

theorem not_oneNumber_twice (h : texts ≠ []) (text : Bytes) :
    ¬ (texts ++ [text] = [] ∨ OneNumber kind (texts ++ [text])) := by
  intro hone
  rcases hone with hone | ⟨other, number, hone, -⟩
  · simp at hone
  · rcases append_eq_singleton_iff.1 hone with ⟨hnil, -⟩ | ⟨-, hnil⟩
    · exact h hnil
    · simp at hnil

theorem presetVersion_accounts (hs : Held fields lines s) (hvalue : value.dropWhile Switch.isSpace = value) :
    Accounts fields (lines ++ [.setting versionKey value]) s.lineNumber (presetVersion long s value) := by
  have hself := valuesOf_self versionKey lines value
  have hother : ∀ {key : Bytes}, key ≠ versionKey →
      valuesOf key (lines ++ [.setting versionKey value]) = valuesOf key lines :=
    fun hkey => valuesOf_other (Ne.symm hkey) lines value
  unfold presetVersion
  by_cases hseen : s.versionSeen = true
  · rw [if_pos hseen]
    refine ⟨by simp [fail], fun hfree => ?_⟩
    have hversion := hfree.version
    rw [hself] at hversion
    exact not_oneNumber_twice (hs.version.1 hseen) value hversion
  · have hnone : valuesOf versionKey lines = [] := by
      by_contra h
      exact hseen (hs.version.2 h)
    rw [hnone, nil_append] at hself
    have hfault : FaultFree fields (lines ++ [.setting versionKey value]) →
        ∃ number, numberOf value = some number ∧ number = formatVersion := fun hfree => by
      have hversion := hfree.version
      rw [hself] at hversion
      exact oneNumber_singleton.1 (hversion.resolve_left (by simp))
    rw [if_neg hseen]
    cases hnumber : parseInteger long value with
    | none =>
      refine ⟨by simp [fail], fun hfree => ?_⟩
      obtain ⟨number, hexact, -⟩ := hfault hfree
      rw [parseInteger_eq_none.1 hnumber] at hexact
      simp at hexact
    | some number =>
      obtain ⟨exact, hexact, -, hsame⟩ := parseInteger_some hvalue hnumber
      dsimp only
      by_cases hformat : number = formatVersion
      · rw [if_neg (not_not_intro hformat)]
        refine ⟨rfl, ?_, ?_, ?_, ?_⟩
        · refine ⟨wellFormed_setting hs.faultFree.wellFormed _ _, Or.inr ?_, fun field hfield hkey => ?_⟩
          · rw [hself]
            exact oneNumber_singleton.2 ⟨exact, hexact, hsame.1 hformat⟩
          · rw [hother hkey]
            exact hs.faultFree.settings field hfield hkey
        · simp [hself]
        · intro i
          rw [hs.seen i]
          apply and_congr_right
          intro hnamed
          rw [hother hnamed.2]
        · intro i text number hi htext
          rw [hother ((hs.seen i).1 hi).1.2] at htext
          exact hs.parsed i text number hi htext
      · rw [if_pos hformat]
        refine ⟨by simp [fail], fun hfree => ?_⟩
        obtain ⟨number', hexact', hversion⟩ := hfault hfree
        rw [hexact, some.injEq] at hexact'
        exact hformat (hsame.2 (hexact'.trans hversion))

theorem presetSetting_accounts
    (hs : Held fields lines s) (hkey : key ≠ versionKey) (hvalue : value.dropWhile Switch.isSpace = value) :
    Accounts fields (lines ++ [.setting key value]) s.lineNumber (presetSetting long fields s key value) := by
  have hself := valuesOf_self key lines value
  have hother : ∀ {other : Bytes}, other ≠ key → valuesOf other (lines ++ [.setting key value]) = valuesOf other lines :=
    fun hne => valuesOf_other (Ne.symm hne) lines value
  have hversion : valuesOf versionKey (lines ++ [.setting key value]) = valuesOf versionKey lines := hother (Ne.symm hkey)
  have hwell := wellFormed_setting hs.faultFree.wellFormed key value
  unfold presetSetting
  cases hfound : findField fields key with
  | none =>
    have hstays : ∀ field ∈ fields, valuesOf field.key (lines ++ [.setting key value]) = valuesOf field.key lines :=
      fun field hfield => hother (findField_none hfound field hfield)
    refine ⟨rfl, ⟨hwell, ?_, fun field hfield hname => ?_⟩, ?_, fun i => ?_, fun i text number hi htext => ?_⟩
    · rw [hversion]
      exact hs.faultFree.version
    · rw [hstays field hfield]
      exact hs.faultFree.settings field hfield hname
    · rw [hversion]
      exact hs.version
    · rw [hstays _ (get_mem fields i)]
      exact hs.seen i
    · rw [hstays _ (get_mem fields i)] at htext
      exact hs.parsed i text number hi htext
  | some i =>
    have hi := findField_key hfound
    have hnamed : Named fields i := ⟨by rw [hi]; exact hfound, by rw [hi]; exact hkey⟩
    -- a field of another index that the settings of its key are for has another key
    have hindex : ∀ j, Named fields j → (fields.get j).key = key → j = i := fun j hj hsame => by
      have hfirst := hj.1
      rw [hsame, hfound, some.injEq] at hfirst
      exact hfirst.symm
    dsimp only
    by_cases hseen : s.seen i = true
    · rw [if_pos hseen]
      refine ⟨by simp [fail], fun hfree => ?_⟩
      have hsetting := hfree.settings _ (get_mem fields i) hnamed.2
      rw [hi, hself] at hsetting
      have hsome := ((hs.seen i).1 hseen).2
      rw [hi] at hsome
      exact not_oneNumber_twice hsome value hsetting
    · have hnone : valuesOf key lines = [] := by
        by_contra h
        apply hseen
        rw [hs.seen i, hi]
        exact ⟨hnamed, h⟩
      rw [hnone, nil_append] at hself
      rw [if_neg hseen]
      cases hnumber : parseInteger long value with
      | none =>
        refine ⟨by simp [fail], fun hfree => ?_⟩
        have hsetting := hfree.settings _ (get_mem fields i) hnamed.2
        rw [hi, hself] at hsetting
        obtain ⟨number, hexact, -⟩ := oneNumber_singleton.1 (hsetting.resolve_left (by simp))
        rw [parseInteger_eq_none.1 hnumber] at hexact
        simp at hexact
      | some number =>
        obtain ⟨exact, hexact, hclamp, -⟩ := parseInteger_some hvalue hnumber
        refine ⟨rfl, ⟨hwell, ?_, fun field hfield hname => ?_⟩, ?_, fun j => ?_, fun j text number' hj htext hnumber' => ?_⟩
        · rw [hversion]
          exact hs.faultFree.version
        · by_cases hsame : field.key = key
          · rw [hsame, hself]
            exact Or.inr (oneNumber_singleton.2 ⟨exact, hexact, trivial⟩)
          · rw [hother hsame]
            exact hs.faultFree.settings field hfield hname
        · rw [hversion]
          exact hs.version
        · by_cases hij : j = i
          · rw [hij, hi, hself]
            simp [hnamed]
          · have hval : (j : Nat) ≠ i := fun h => hij (Fin.ext h)
            dsimp only
            rw [Function.update_of_ne hval, hs.seen j]
            apply and_congr_right
            intro hj
            rw [hother fun hsame => hij (hindex j hj hsame)]
        · dsimp only at hj ⊢
          by_cases hij : j = i
          · rw [hij, hi, hself, singleton_inj] at htext
            rw [hij, Function.update_self, hclamp]
            rw [← htext, hexact, some.injEq] at hnumber'
            rw [hnumber']
          · have hval : (j : Nat) ≠ i := fun h => hij (Fin.ext h)
            rw [Function.update_of_ne hval] at hj ⊢
            rw [hother fun hsame => hij (hindex j ((hs.seen j).1 hj).1 hsame)] at htext
            exact hs.parsed j text number' hj htext hnumber'

theorem presetTake_accounts {long : LongRange} {fields : List PresetField} {lines : List PresetLine} {s : PresetState}
    (hs : Held fields lines s) (first : Bool) (line : Bytes) :
    Accounts fields (lines ++ [presetLine first line]) s.lineNumber (presetTake long fields s (presetLine first line)) := by
  cases hline : presetLine first line with
  | blank =>
    have hstays : ∀ key, valuesOf key (lines ++ [.blank]) = valuesOf key lines := fun key => by
      rw [valuesOf_append]
      exact append_nil _
    refine ⟨rfl, ⟨?_, ?_, ?_⟩, ?_, ?_, ?_⟩
    · intro key hmem
      rcases mem_append.1 hmem with hmem | hmem
      · exact hs.faultFree.wellFormed key hmem
      · simp at hmem
    · simpa only [hstays] using hs.faultFree.version
    · simpa only [hstays] using hs.faultFree.settings
    · simpa only [hstays] using hs.version
    · simpa only [hstays] using hs.seen
    · simpa only [hstays] using hs.parsed
  | malformed key =>
    exact ⟨by simp [fail], fun hfree => hfree.wellFormed key (mem_append_right _ (mem_singleton_self _))⟩
  | setting key value =>
    have htrimmed := presetLine_trimmed hline
    simp only [presetTake]
    by_cases hkey : key = versionKey
    · rw [if_pos hkey, hkey]
      exact presetVersion_accounts hs htrimmed
    · rw [if_neg hkey]
      exact presetSetting_accounts hs hkey htrimmed

/-! ### The lines of a file -/

/-- What the lines of a file are, in order. -/
def presetLines (lines : List Bytes) : List PresetLine := lines.mapIdx fun i line => presetLine (i = 0) (cString line)

theorem presetLines_append (before after : List Bytes) : presetLines before <+: presetLines (before ++ after) := by
  rw [presetLines, presetLines, mapIdx_append]
  exact prefix_append _ _

theorem presetLines_concat (lines : List Bytes) (line : Bytes) :
    presetLines (lines ++ [line]) = presetLines lines ++ [presetLine (lines.length = 0) (cString line)] := mapIdx_concat

/-- A line that is not read whole although it fits: it has a NUL before its line feed, or it is the last one and leaves
no room in the buffer. -/
def Misread (line : Bytes) : Prop := lf ∈ line ∧ 0 ∈ line ∨ lf ∉ line ∧ line.length + 1 = lineLen

instance (line : Bytes) : Decidable (Misread line) := inferInstanceAs (Decidable (_ ∨ _))

/-- A line as a file has it: its line feed, if any, is at its end. -/
def IsLine (line : Bytes) : Prop := lf ∉ line ∨ ∃ text, line = text ++ [lf] ∧ lf ∉ text

theorem fileLines_isLine (file : Bytes) : ∀ line ∈ fileLines file, IsLine line := by
  induction file using file_induction with
  | nil => simp [fileLines]
  | last text hne htext =>
    rw [fileLines_last hne htext]
    intro line hline
    rw [mem_singleton.1 hline]
    exact Or.inl htext
  | line text rest htext ih =>
    rw [fileLines_line htext]
    intro line hline
    rcases mem_cons.1 hline with hline | hline
    · exact Or.inr ⟨text, hline, htext⟩
    · exact ih line hline

theorem lf_mem_cString (htext : lf ∉ text) : lf ∈ cString (text ++ [lf]) ↔ 0 ∉ text := by
  constructor
  · intro h hnul
    obtain ⟨before, after, hsplit, hbefore⟩ := eq_append_cons_of_mem hnul
    have hcut : cString (text ++ [lf]) = before := by
      have hchars : ∀ c ∈ before, decide (c ≠ 0) = true := fun c hc => decide_eq_true fun hzero => hbefore (hzero ▸ hc)
      rw [cString, hsplit, append_assoc, takeWhile_append_of_pos hchars]
      simp
    rw [hcut] at h
    apply htext
    rw [hsplit]
    exact mem_append_left _ h
  · intro hnul
    have hwhole : 0 ∉ text ++ [lf] := by
      intro hmem
      rcases mem_append.1 hmem with hmem | hmem
      · exact hnul hmem
      · exact absurd (mem_singleton.1 hmem) (by decide)
    rw [Switch.cString_of_nul hwhole]
    simp

theorem overlong_readOf (hline : IsLine line) (hfits : line.length < lineLen) :
    (lf ∉ cString (readOf lineLen line).1 ∧ (readOf lineLen line).2 = false) ↔ Misread line := by
  unfold readOf Misread
  rcases hline with hline | ⟨text, rfl, htext⟩
  · have hcut : lf ∉ cString line := fun h => hline (takeWhile_subset _ h)
    simp only [hline, hcut, not_false_eq_true, true_and, false_and, false_or, decide_eq_false_iff_not]
    omega
  · rw [lf_mem_cString htext]
    have hzero : (0 : UInt8) ∈ text ++ [lf] ↔ 0 ∈ text := by
      simp [lf]
    simp [hzero]

/-- A line that the loop takes. -/
structure Whole (line : Bytes) : Prop where
  isLine : IsLine line
  fits : line.length < lineLen
  read : ¬ Misread line

theorem Held.lineNumber (h : Held fields lines s)
    (lineNumber : Nat) : Held fields lines { s with lineNumber := lineNumber } :=
  ⟨h.faultFree, h.version, h.seen, h.parsed⟩

theorem held_nil (fields : List PresetField) : Held fields [] {} where
  faultFree := ⟨by simp, Or.inl rfl, fun _ _ _ => Or.inl rfl⟩
  version := by simp [valuesOf]
  seen := by simp [valuesOf]
  parsed := by simp

theorem turns_accounts (long : LongRange) (fields : List PresetField) {lines : List Bytes}
    (hlines : ∀ line ∈ lines, Whole line) :
    Accounts fields (presetLines lines) lines.length ((lines.map (readOf lineLen)).foldlM (presetTurn long fields) {}) := by
  induction lines using List.reverseRecOn with
  | nil => exact ⟨rfl, held_nil fields⟩
  | append_singleton lines line ih =>
    have hbefore := ih fun other hother => hlines other (mem_append_left _ hother)
    have hwhole := hlines line (mem_append_right _ (mem_singleton_self _))
    rw [map_append, foldlM_append, presetLines_concat]
    cases hrun : (lines.map (readOf lineLen)).foldlM (presetTurn long fields) {} with
    | error failure =>
      rw [hrun] at hbefore
      exact ⟨hbefore.1, fun hfree => hbefore.2 hfree.left⟩
    | ok s =>
      rw [hrun] at hbefore
      obtain ⟨hnumber, hs⟩ := hbefore
      have hturn : presetTurn long fields s (readOf lineLen line) =
          presetTake long fields { s with lineNumber := s.lineNumber + 1 }
            (presetLine (lines.length = 0) (cString line)) := by
        unfold presetTurn
        rw [if_neg fun h => hwhole.read ((overlong_readOf hwhole.isLine hwhole.fits).1 h)]
        simp [readOf, hnumber]
      have htake := @presetTake_accounts long fields _ _ (hs.lineNumber (s.lineNumber + 1)) (lines.length = 0) (cString line)
      rw [← hturn] at htake
      have hcount : (lines ++ [line]).length = s.lineNumber + 1 := by
        rw [length_append, hnumber]
        rfl
      rw [hcount]
      change Accounts fields _ _ ([readOf lineLen line].foldlM (presetTurn long fields) s)
      rw [foldlM_cons]
      simp only [foldlM_nil, bind_pure]
      exact htake

/-- The loop stops at a part of a line, if no line before it stops the loop. -/
theorem turns_stop (long : LongRange) (fields : List PresetField) (hbefore : ∀ line ∈ before, Whole line)
    (hread : lf ∉ cString read.1 ∧ read.2 = false) (more : List (Bytes × Bool)) :
    ∃ failure, (before.map (readOf lineLen) ++ read :: more).foldlM (presetTurn long fields) {} = .error failure ∧
      failure.1 ≠ .ok ∧ (failure.1 = .lineTooLong ↔ FaultFree fields (presetLines before)) := by
  have haccounts := turns_accounts long fields hbefore
  rw [foldlM_append]
  cases hrun : (before.map (readOf lineLen)).foldlM (presetTurn long fields) {} with
  | error failure =>
    rw [hrun] at haccounts
    exact ⟨failure, rfl, haccounts.1.1, fun h => absurd h haccounts.1.2, fun h => absurd h haccounts.2⟩
  | ok s =>
    rw [hrun] at haccounts
    have hturn : presetTurn long fields s read =
        .error (fail s.result .lineTooLong (s.lineNumber + 1) []) := by
      unfold presetTurn
      rw [if_pos hread]
    refine ⟨fail s.result .lineTooLong (s.lineNumber + 1) [], ?_, by simp [fail], fun _ => haccounts.2.faultFree, fun _ => rfl⟩
    change (read :: more).foldlM (presetTurn long fields) s = _
    rw [foldlM_cons, hturn]
    rfl

/-- The first line that the loop does not take. -/
def Stops (fields : List PresetField) (file : Bytes) (failure : Failure) : Prop :=
  ∃ before line after, fileLines file = before ++ line :: after ∧ (∀ other ∈ before, Whole other) ∧
    (Misread line ∨ lineLen ≤ line.length) ∧ failure.1 ≠ .ok ∧
      (failure.1 = .lineTooLong ↔ FaultFree fields (presetLines before))

/-- The loop over a file: all lines are taken one by one, or there is a first one that is not. -/
theorem turns_cases (long : LongRange) (fields : List PresetField) (file : Bytes) :
    (∀ line ∈ fileLines file, Whole line) ∧
        Accounts fields (presetLines (fileLines file)) (fileLines file).length
          ((lineReads lineLen file).foldlM (presetTurn long fields) {}) ∨
      ∃ failure, (lineReads lineLen file).foldlM (presetTurn long fields) {} = .error failure ∧ Stops fields file failure := by
  obtain ⟨before, after, hlines, hfits, rest, hreads, hend⟩ := lineReads_cases (show 2 ≤ lineLen by decide) file
  have hform : ∀ line ∈ before, IsLine line := fun line hline =>
    fileLines_isLine file line (hlines ▸ mem_append_left _ hline)
  cases hfirst : before.find? fun line => decide (Misread line) with
  | some line =>
    obtain ⟨hmisread, whole, others, hsplit, hwhole⟩ := find?_eq_some_iff_append.1 hfirst
    have hmem : line ∈ before := hsplit ▸ mem_append_right _ mem_cons_self
    have hbefore : ∀ other ∈ whole, Whole other := fun other hother =>
      have hin : other ∈ before := hsplit ▸ mem_append_left _ hother
      ⟨hform other hin, hfits other hin, by simpa using hwhole other hother⟩
    have hread := (overlong_readOf (hform line hmem) (hfits line hmem)).2 (of_decide_eq_true hmisread)
    obtain ⟨failure, hrun, hstatus⟩ :=
      turns_stop long fields hbefore hread (others.map (readOf lineLen) ++ rest)
    refine Or.inr ⟨failure, ?_, whole, line, others ++ after, ?_, hbefore, Or.inl (of_decide_eq_true hmisread), hstatus⟩
    · rw [← hrun, hreads, hsplit, map_append, map_cons, append_assoc, cons_append]
    · rw [hlines, hsplit, append_assoc, cons_append]
  | none =>
    have hbefore : ∀ line ∈ before, Whole line := fun line hline =>
      ⟨hform line hline, hfits line hline, by simpa using find?_eq_none.1 hfirst line hline⟩
    rcases hend with ⟨rfl, rfl⟩ | ⟨⟨line, lines, rfl, hlong⟩, part, more, rfl, hpart⟩
    · rw [append_nil] at hlines hreads
      rw [hlines, hreads]
      exact Or.inl ⟨hbefore, turns_accounts long fields hbefore⟩
    · have hread : lf ∉ cString (part, false).1 ∧ (part, false).2 = false :=
        ⟨fun h => hpart (takeWhile_subset _ h), rfl⟩
      obtain ⟨failure, hrun, hstatus⟩ := turns_stop long fields hbefore hread more
      exact Or.inr ⟨failure, by rw [hreads, hrun], before, line, lines, hlines, hbefore, Or.inr hlong, hstatus⟩

/-! ### Whole calls -/

structure FieldTable (fields : List PresetField) : Prop where
  sized : 0 < fields.length ∧ fields.length ≤ maxFields
  distinct : Function.Injective fun i : Fin fields.length => (fields.get i).key
  named : ∀ field ∈ fields, field.key ≠ versionKey

theorem named_of_table (h : FieldTable fields) (i : Fin fields.length) : Named fields i := by
  refine ⟨findFinIdx?_eq_some_iff.2 ⟨by simp, fun j hji hsame => ?_⟩, h.named _ (get_mem fields i)⟩
  have hij := h.distinct (of_decide_eq_true hsame)
  exact absurd hji (hij ▸ lt_irrefl j)

theorem table_of_named (hsized : 0 < fields.length ∧ fields.length ≤ maxFields)
    (h : ∀ i, Named fields i) : FieldTable fields where
  sized := hsized
  distinct := fun i j hsame => by
    have hi := (h i).1
    dsimp only at hsame
    rw [hsame, (h j).1, some.injEq] at hi
    exact hi.symm
  named := fun field hfield => by
    obtain ⟨i, rfl⟩ := get_of_mem hfield
    exact (h i).2

theorem presetEnd_ok {fails : Bool} :
    (presetEnd fields s fails).1 = .ok ↔
      fails = false ∧ s.versionSeen = true ∧ ∀ i : Fin fields.length, s.seen i = true := by
  unfold presetEnd
  cases fails with
  | true => simp [fail]
  | false =>
    cases hversion : s.versionSeen with
    | false => simp [fail]
    | true =>
      cases hmissing : (List.finRange fields.length).find? fun i : Fin fields.length => !s.seen i.val with
      | some i =>
        have hunseen := find?_some hmissing
        simp only [fail, Bool.false_eq_true, if_false, Bool.not_true, reduceCtorEq, true_and, false_iff]
        intro hseen
        simp [hseen i] at hunseen
      | none =>
        have hseen := find?_eq_none.1 hmissing
        simpa using fun i => by simpa using hseen i (mem_finRange i)

theorem presetEnd_tooLong (fields : List PresetField) (s : PresetState) (fails : Bool) :
    (presetEnd fields s fails).1 ≠ .lineTooLong := by
  unfold presetEnd
  cases fails <;> cases s.versionSeen <;>
    cases (List.finRange fields.length).find? fun i : Fin fields.length => !s.seen i.val <;> simp [fail]

/-- What is written for a field: the clamped number of the only line with its key. -/
def WrittenFor (lines : List PresetLine) (field : PresetField) (value : Int) : Prop :=
  ∃ text number, valuesOf field.key lines = [text] ∧ numberOf text = some number ∧ value = clampField field number

/-- All is seen if the file is good and the table has a field for each key. -/
theorem Held.good_iff (hs : Held fields lines s) (hsized : 0 < fields.length ∧ fields.length ≤ maxFields) :
    (s.versionSeen = true ∧ ∀ i : Fin fields.length, s.seen i = true) ↔ FieldTable fields ∧ GoodPreset fields lines := by
  constructor
  · intro h
    obtain ⟨hversion, hseen⟩ := h
    have hnamed : ∀ i, Named fields i := fun i => ((hs.seen i).1 (hseen i)).1
    refine ⟨table_of_named hsized hnamed, hs.faultFree.wellFormed, ?_, fun field hfield => ?_⟩
    · exact hs.faultFree.version.resolve_left (hs.version.1 hversion)
    · obtain ⟨i, rfl⟩ := get_of_mem hfield
      exact (hs.faultFree.settings _ hfield (hnamed i).2).resolve_left ((hs.seen i).1 (hseen i)).2
  · intro h
    obtain ⟨htable, hgood⟩ := h
    constructor
    · rw [hs.version]
      obtain ⟨text, number, htext, -⟩ := hgood.version
      simp [htext]
    · intro i
      rw [hs.seen i]
      obtain ⟨text, number, htext, -⟩ := hgood.settings _ (get_mem fields i)
      exact ⟨named_of_table htable i, htext ▸ cons_ne_nil _ _⟩

theorem Held.written (hs : Held fields lines s)
    (hgood : GoodPreset fields lines) (hseen : ∀ i : Fin fields.length, s.seen i = true) :
    List.Forall₂ (WrittenFor lines) fields ((List.range fields.length).map s.parsedValues) := by
  rw [forall₂_iff_get]
  refine ⟨by simp, fun i hi hi' => ?_⟩
  obtain ⟨text, number, htext, hnumber, -⟩ := hgood.settings _ (get_mem fields ⟨i, hi⟩)
  have hvalue := hs.parsed ⟨i, hi⟩ text number (hseen ⟨i, hi⟩) htext hnumber
  exact ⟨text, number, htext, hnumber, by simpa using hvalue⟩

theorem valuesOf_filter (key : Bytes) (lines : List PresetLine) :
    valuesOf key (lines.filter (· ≠ .blank)) = valuesOf key lines := by
  induction lines with
  | nil => rfl
  | cons line lines ih =>
    by_cases hblank : line = .blank
    · rw [filter_cons_of_neg (by simpa using hblank), ih, hblank]
      rfl
    · rw [filter_cons_of_pos (by simpa using hblank)]
      have hfirst := valuesOf_append key [line]
      have hfilter := hfirst (lines.filter (· ≠ .blank))
      have hlines := hfirst lines
      rw [singleton_append] at hfilter hlines
      rw [hfilter, hlines, ih]

def settingLines (file : Bytes) : List PresetLine := (presetLines (fileLines file)).filter (· ≠ .blank)

theorem valuesOf_settingLines (h : (settingLines other).Perm (settingLines file)) (key : Bytes) :
    (valuesOf key (presetLines (fileLines other))).Perm (valuesOf key (presetLines (fileLines file))) := by
  have hperm := valuesOf_perm h key
  unfold settingLines at hperm
  rwa [valuesOf_filter, valuesOf_filter] at hperm

theorem first_stop {before' after' : List Bytes} {line' : Bytes}
    (h : before ++ line :: after = before' ++ line' :: after') (hwhole : ∀ other ∈ before, Whole other)
    (hline : ¬ Whole line') : before <+: before' := by
  rcases append_eq_append_iff.1 h with ⟨more, hmore, -⟩ | ⟨more, hmore, hlines⟩
  · exact ⟨more, hmore.symm⟩
  · cases more with
    | nil => exact ⟨[], by rw [append_nil, hmore, append_nil]⟩
    | cons first more =>
      have hfirst : line' = first := (cons.inj hlines).1
      exact absurd (hwhole line' (by rw [hmore, hfirst]; simp)) hline

theorem not_whole (h : Misread line ∨ lineLen ≤ line.length) : ¬ Whole line := fun hwhole => by
  rcases h with hmisread | hlong
  · exact hwhole.read hmisread
  · exact absurd hwhole.fits (Nat.not_lt.2 hlong)

theorem FaultFree.first {lines : List Bytes} (h : before <+: lines)
    (hfree : FaultFree fields (presetLines lines)) : FaultFree fields (presetLines before) := by
  obtain ⟨more, rfl⟩ := h
  obtain ⟨rest, hrest⟩ := presetLines_append before more
  rw [← hrest] at hfree
  exact hfree.left

theorem GoodPreset.perm
    (h : GoodPreset fields (presetLines (fileLines file))) (hperm : (settingLines other).Perm (settingLines file)) :
    GoodPreset fields (presetLines (fileLines other)) where
  wellFormed := fun key hmem => by
    have hother : PresetLine.malformed key ∈ settingLines other := mem_filter.2 ⟨hmem, by simp⟩
    exact h.wellFormed key (mem_filter.1 (hperm.subset hother)).1
  version := h.version.perm (valuesOf_settingLines hperm versionKey).symm
  settings := fun field hfield => (h.settings field hfield).perm (valuesOf_settingLines hperm field.key).symm

theorem WrittenFor.perm {field : PresetField} {value : Int}
    (h : WrittenFor (presetLines (fileLines other)) field value) (hperm : (settingLines other).Perm (settingLines file)) :
    WrittenFor (presetLines (fileLines file)) field value := by
  obtain ⟨text, number, htext, hnumber⟩ := h
  have hvalues := valuesOf_settingLines hperm field.key
  rw [htext] at hvalues
  exact ⟨text, number, singleton_perm.1 hvalues |>.symm, hnumber⟩

theorem writtenFor_unique (lines : List PresetLine) : Relator.RightUnique (WrittenFor lines) := by
  intro field value other h hother
  obtain ⟨text, number, htext, hnumber, hvalue⟩ := h
  obtain ⟨text', number', htext', hnumber', hvalue'⟩ := hother
  rw [htext, singleton_inj] at htext'
  rw [← htext', hnumber, some.injEq] at hnumber'
  rw [hvalue, hvalue', hnumber']

theorem presetVersion_error (h : presetVersion long s value = .error failure) : failure.1 ≠ .ok := by
  unfold presetVersion at h
  split at h
  · simp [← Except.error.inj h, fail]
  · split at h
    · simp [← Except.error.inj h, fail]
    · split at h
      · simp [← Except.error.inj h, fail]
      · exact absurd h (by simp)

theorem presetSetting_error (h : presetSetting long fields s key value = .error failure) : failure.1 ≠ .ok := by
  unfold presetSetting at h
  split at h
  · exact absurd h (by simp)
  · split at h
    · simp [← Except.error.inj h, fail]
    · split at h
      · simp [← Except.error.inj h, fail]
      · exact absurd h (by simp)

theorem presetTurn_error (h : presetTurn long fields s read = .error failure) : failure.1 ≠ .ok := by
  unfold presetTurn at h
  extract_lets next line at h
  split at h
  · simp [← Except.error.inj h, fail]
  · cases hline : presetLine (next.lineNumber = 1) line with
    | blank =>
      rw [hline] at h
      exact absurd h (by simp [presetTake])
    | malformed key =>
      rw [hline] at h
      simp [← Except.error.inj h, fail]
    | setting key value =>
      rw [hline] at h
      simp only [presetTake] at h
      split at h
      · exact presetVersion_error h
      · exact presetSetting_error h

theorem turns_error {reads : List (Bytes × Bool)}
    (h : reads.foldlM (presetTurn long fields) s = .error failure) : failure.1 ≠ .ok := by
  induction reads generalizing s with
  | nil => exact absurd h (by simp [pure, Except.pure])
  | cons read reads ih =>
    rw [foldlM_cons] at h
    cases hturn : presetTurn long fields s read with
    | error stopped =>
      rw [hturn] at h
      have hsame : stopped = failure := Except.error.inj h
      rw [← hsame]
      exact presetTurn_error hturn
    | ok s' =>
      rw [hturn] at h
      exact ih h

section Calls

variable (long : LongRange) (stream : Stream) (fields : List PresetField) (values : List Int)

/-- The parser with a file, a table and the caller's values. -/
def presetCall : PresetCall := crtPresetParse long (some stream) (some fields) (some values)

/-- A table that the parser takes. -/
def Sized : Prop := 0 < fields.length ∧ fields.length ≤ maxFields

variable {long stream fields values}

theorem presetCall_unsized (h : ¬ Sized fields) :
    (presetCall long stream fields values).status = .invalidArgument ∧
      (presetCall long stream fields values).values = some values := by
  have hcheck : fields.length = 0 ∨ maxFields < fields.length := by
    unfold Sized at h
    omega
  simp only [presetCall, crtPresetParse, if_pos hcheck, fail, and_self]

theorem presetCall_sized (h : Sized fields) : presetCall long stream fields values =
    presetOutcome fields values stream.fails (stream.reads.foldlM (presetTurn long fields) {}) := by
  have hcheck : ¬ (fields.length = 0 ∨ maxFields < fields.length) := by
    unfold Sized at h
    omega
  simp only [presetCall, crtPresetParse, if_neg hcheck]

variable {fails : Bool}

theorem presetOutcome_unchanged {run : Except Failure PresetState}
    (h : (presetOutcome fields values fails run).status ≠ .ok) :
    (presetOutcome fields values fails run).values = some values := by
  cases run with
  | error failure => rfl
  | ok s =>
    by_cases hend : (presetEnd fields s fails).1 = .ok
    · simp [presetOutcome, hend] at h
    · simp [presetOutcome, hend]

theorem presetOutcome_status (s : PresetState) :
    (presetOutcome fields values fails (.ok s)).status = (presetEnd fields s fails).1 := by
  by_cases hend : (presetEnd fields s fails).1 = .ok <;> simp [presetOutcome, hend]

theorem reads_of_file (h : stream.fails = false) : stream.reads = lineReads lineLen stream.text := by
  simp [Stream.reads, h]

/-- A call that ends with OK read a good file whole and wrote what it says. -/
theorem presetCall_ok (h : (presetCall long stream fields values).status = .ok) :
    stream.fails = false ∧ (∀ line ∈ fileLines stream.text, Whole line) ∧ FieldTable fields ∧
      GoodPreset fields (presetLines (fileLines stream.text)) ∧
        ∃ written, (presetCall long stream fields values).values = some (written ++ values.drop fields.length) ∧
          List.Forall₂ (WrittenFor (presetLines (fileLines stream.text))) fields written := by
  by_cases hsized : Sized fields
  · rw [presetCall_sized hsized] at h ⊢
    cases hrun : stream.reads.foldlM (presetTurn long fields) {} with
    | error failure =>
      rw [hrun] at h
      exact absurd h (turns_error hrun)
    | ok s =>
      rw [hrun, presetOutcome_status] at h
      obtain ⟨hfails, hseen⟩ := presetEnd_ok.1 h
      rw [reads_of_file hfails] at hrun
      rcases turns_cases long fields stream.text with ⟨hwhole, haccounts⟩ | ⟨failure, hstop, -⟩
      · rw [hrun] at haccounts
        obtain ⟨-, hs⟩ := haccounts
        obtain ⟨htable, hgood⟩ := (hs.good_iff hsized).1 hseen
        exact ⟨hfails, hwhole, htable, hgood, _, by simp [presetOutcome, h], hs.written hgood hseen.2⟩
      · rw [hrun] at hstop
        exact absurd hstop (by simp)
  · rw [(presetCall_unsized hsized).1] at h
    exact absurd h (by simp)

theorem presetCall_good (hfails : stream.fails = false) (hwhole : ∀ line ∈ fileLines stream.text, Whole line)
    (htable : FieldTable fields) (hgood : GoodPreset fields (presetLines (fileLines stream.text))) :
    (presetCall long stream fields values).status = .ok := by
  rw [presetCall_sized htable.sized, reads_of_file hfails]
  rcases turns_cases long fields stream.text with ⟨-, haccounts⟩ | ⟨failure, -, before, line, after, hlines, -, hstop, -⟩
  · cases hrun : (lineReads lineLen stream.text).foldlM (presetTurn long fields) {} with
    | error failure =>
      rw [hrun] at haccounts
      exact absurd hgood.faultFree haccounts.2
    | ok s =>
      rw [hrun] at haccounts
      rw [presetOutcome_status, presetEnd_ok]
      exact ⟨hfails, (haccounts.2.good_iff htable.sized).2 ⟨htable, hgood⟩⟩
  · exact absurd (hwhole line (hlines ▸ mem_append_right _ mem_cons_self)) (not_whole hstop)

/-- A line is reported as too long if it is the first that is not read whole and nothing before it is a fault. -/
theorem presetCall_tooLong (hsized : Sized fields) (hfails : stream.fails = false) :
    (presetCall long stream fields values).status = .lineTooLong ↔
      ∃ before line after, fileLines stream.text = before ++ line :: after ∧ (∀ other ∈ before, Whole other) ∧
        (Misread line ∨ lineLen ≤ line.length) ∧ FaultFree fields (presetLines before) := by
  rw [presetCall_sized hsized, reads_of_file hfails]
  rcases turns_cases long fields stream.text with ⟨hwhole, haccounts⟩ | ⟨failure, hrun, before, line, after, hlines, hbefore, hstop, hstatus⟩
  · constructor
    · intro h
      cases hrun : (lineReads lineLen stream.text).foldlM (presetTurn long fields) {} with
      | error failure =>
        rw [hrun] at haccounts h
        exact absurd h haccounts.1.2
      | ok s =>
        rw [hrun, presetOutcome_status] at h
        exact absurd h (presetEnd_tooLong fields s stream.fails)
    · intro h
      obtain ⟨before, line, after, hlines, -, hstop, -⟩ := h
      exact absurd (hwhole line (hlines ▸ mem_append_right _ mem_cons_self)) (not_whole hstop)
  · rw [hrun]
    constructor
    · intro h
      exact ⟨before, line, after, hlines, hbefore, hstop, hstatus.2.1 h⟩
    · intro h
      obtain ⟨before', line', after', hlines', hbefore', hstop', hfree⟩ := h
      exact hstatus.2.2 (hfree.first (first_stop (hlines ▸ hlines') hbefore (not_whole hstop')))

variable (long stream fields values)

/-- What a call promises: the values change with OK alone; then each is the clamped number of the only line with its key,
and a file with the same setting lines in another order gives the same values. A file whose lines all fit is taken if
it is good, and no line of it is reported as too long. -/
structure PresetExact : Prop where
  unchanged : (presetCall long stream fields values).status ≠ .ok →
    (presetCall long stream fields values).values = some values
  clamped : (presetCall long stream fields values).status = .ok →
    ∃ written, (presetCall long stream fields values).values = some (written ++ values.drop fields.length) ∧
      List.Forall₂ (WrittenFor (presetLines (fileLines stream.text))) fields written
  permuted : (presetCall long stream fields values).status = .ok →
    ∀ other : Bytes, (settingLines other).Perm (settingLines stream.text) →
      (presetCall long { text := other } fields values).status ≠ .lineTooLong →
        (presetCall long { text := other } fields values).status = .ok ∧
          (presetCall long { text := other } fields values).values = (presetCall long stream fields values).values
  judged : stream.fails = false → (∀ line ∈ fileLines stream.text, line.length < lineLen) →
    (presetCall long stream fields values).status ≠ .lineTooLong ∧
      ((presetCall long stream fields values).status = .ok ↔
        FieldTable fields ∧ GoodPreset fields (presetLines (fileLines stream.text)))

def MisreadAfterFault : Prop :=
  ∀ before line after, fileLines stream.text = before ++ line :: after → Misread line →
    ¬ FaultFree fields (presetLines before)

variable {long stream fields values}

theorem presetCall_unchanged (h : (presetCall long stream fields values).status ≠ .ok) :
    (presetCall long stream fields values).values = some values := by
  by_cases hsized : Sized fields
  · rw [presetCall_sized hsized] at h ⊢
    exact presetOutcome_unchanged h
  · exact (presetCall_unsized hsized).2

theorem whole_of_faultFree (hsized : Sized fields) (hfails : stream.fails = false)
    (hfree : FaultFree fields (presetLines (fileLines stream.text)))
    (hstatus : (presetCall long stream fields values).status ≠ .lineTooLong) :
    ∀ line ∈ fileLines stream.text, Whole line := by
  rcases turns_cases long fields stream.text with ⟨hwhole, -⟩ | ⟨failure, hrun, before, line, after, hlines, hbefore, hstop, -⟩
  · exact hwhole
  · have hfirst : FaultFree fields (presetLines before) := hfree.first ⟨line :: after, hlines.symm⟩
    exact absurd ((presetCall_tooLong hsized hfails).2 ⟨before, line, after, hlines, hbefore, hstop, hfirst⟩) hstatus

theorem presetCall_permuted (h : (presetCall long stream fields values).status = .ok) {other : Bytes}
    (hperm : (settingLines other).Perm (settingLines stream.text))
    (hstatus : (presetCall long { text := other } fields values).status ≠ .lineTooLong) :
    (presetCall long { text := other } fields values).status = .ok ∧
      (presetCall long { text := other } fields values).values = (presetCall long stream fields values).values := by
  obtain ⟨-, -, htable, hgood, written, hvalues, hwritten⟩ := presetCall_ok h
  have hother := hgood.perm hperm
  have hwhole := whole_of_faultFree htable.sized rfl hother.faultFree hstatus
  have hok : (presetCall long { text := other } fields values).status = .ok := presetCall_good rfl hwhole htable hother
  obtain ⟨-, -, -, -, written', hvalues', hwritten'⟩ := presetCall_ok hok
  have hsame : List.Forall₂ (WrittenFor (presetLines (fileLines stream.text))) fields written' :=
    hwritten'.imp fun _ _ hfield => hfield.perm hperm
  rw [hvalues, hvalues', (writtenFor_unique _).forall₂ hsame hwritten]
  exact ⟨hok, rfl⟩

/-- The promise is kept unless a line of a file whose lines all fit is misread before any fault. -/
theorem preset_exact_iff : PresetExact long stream fields values ↔
    (stream.fails = false → Sized fields → (∀ line ∈ fileLines stream.text, line.length < lineLen) →
      MisreadAfterFault stream fields) := by
  constructor
  · intro h hfails hsized hfits before line after hlines hmisread hfree
    apply (h.judged hfails hfits).1
    rcases turns_cases long fields stream.text with ⟨hwhole, -⟩ | ⟨failure, -, first, stop, rest, hfirst, hbefore, hstop, -⟩
    · exact absurd hmisread (hwhole line (hlines ▸ mem_append_right _ mem_cons_self)).read
    · have hearlier := first_stop (hfirst ▸ hlines) hbefore (not_whole (Or.inl hmisread))
      exact (presetCall_tooLong hsized hfails).2 ⟨first, stop, rest, hfirst, hbefore, hstop, hfree.first hearlier⟩
  · intro h
    refine ⟨presetCall_unchanged, fun hok => ?_, fun hok other hperm hstatus => presetCall_permuted hok hperm hstatus,
      fun hfails hfits => ?_⟩
    · obtain ⟨-, -, -, -, hwritten⟩ := presetCall_ok hok
      exact hwritten
    · by_cases hsized : Sized fields
      · have hshort : (presetCall long stream fields values).status ≠ .lineTooLong := by
          intro hlong
          obtain ⟨before, line, after, hlines, -, hstop, hfree⟩ := (presetCall_tooLong hsized hfails).1 hlong
          have hline := hfits line (hlines ▸ mem_append_right _ mem_cons_self)
          exact h hfails hsized hfits before line after hlines (hstop.resolve_right (by omega)) hfree
        refine ⟨hshort, fun hok => ?_, fun hgood => ?_⟩
        · obtain ⟨-, -, htable, hgood, -⟩ := presetCall_ok hok
          exact ⟨htable, hgood⟩
        · obtain ⟨htable, hgood⟩ := hgood
          exact presetCall_good hfails (whole_of_faultFree hsized hfails hgood.faultFree hshort) htable hgood
      · rw [(presetCall_unsized hsized).1]
        exact ⟨by simp, by simp, fun hgood => absurd hgood.1.sized hsized⟩

end Calls

/-- The range of a `long` of 64 bits. -/
def longRange64 : LongRange := ⟨2 ^ 63 - 1, by decide⟩

def brightness : PresetField where
  key := ascii "brightness"
  min := 0
  max := 100
  key_nul := by decide
  min_int := by
    unfold IsInt
    decide
  max_int := by
    unfold IsInt
    decide

/-- A file whose last line is a comment that fills the buffer of 512 characters. -/
def fullLastLine : Bytes := ascii "version=1\nbrightness=5\n" ++ List.replicate 511 35

/-- The comment fits the buffer and is reported as too long. -/
theorem full_last_line_too_long : ¬ PresetExact longRange64 { text := fullLastLine } [brightness] [50] := by
  intro h
  have hfits : ∀ line ∈ fileLines fullLastLine, line.length < lineLen := by decide +kernel
  exact (h.judged rfl hfits).1 (by decide +kernel)

end Bmx.CrtPreset
