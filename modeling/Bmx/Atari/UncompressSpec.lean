import Bmx.Atari.Uncompress

/-!
# The input of a conversion

The input keeps its contents if the output has a name of its own. That is so exactly if one of the rules gives the input
a new name and the buffers hold the names.
-/

namespace Bmx.Atari

open List Option

/-! ### Names -/

/-- The name of the output by the rules: `.gz` goes, `.atz` and DCM images become `.atr`, `.xfz` becomes `.xfd`. -/
inductive SwappedName : UInt8 → Bytes → Bytes → Prop
  | gz {stem ext : Bytes} (hext : ext = ascii "gz" ∨ ext = ascii "GZ") :
      SwappedName gzMagic (stem ++ dot :: ext) stem
  | atz {stem ext new : Bytes} (hext : ext = ascii "atz" ∨ ext = ascii "ATZ") (hnew : fold new = ascii "atr") :
      SwappedName gzMagic (stem ++ dot :: ext) (stem ++ dot :: new)
  | xfz {stem ext new : Bytes} (hext : ext = ascii "xfz" ∨ ext = ascii "XFZ") (hnew : fold new = ascii "xfd") :
      SwappedName gzMagic (stem ++ dot :: ext) (stem ++ dot :: new)
  | dcm {magic : UInt8} {stem ext new : Bytes} (hmagic : isDcm magic = true) (hext : dot ∉ ext)
      (hnew : fold new = ascii "atr") : SwappedName magic (stem ++ dot :: ext) (stem ++ dot :: new)
  | bare {magic : UInt8} {base new : Bytes} (hmagic : isDcm magic = true) (hbase : dot ∉ base)
      (hnew : fold new = ascii "atr") : SwappedName magic base (base ++ dot :: new)

theorem asciiLower_inCaseOf {new : UInt8} (hnew : 97 ≤ new ∧ new ≤ 122) (old : UInt8) :
    asciiLower (inCaseOf old new) = new := by
  have hletters : ∀ new : UInt8, 97 ≤ new ∧ new ≤ 122 → asciiLower (new - 32) = new ∧ asciiLower new = new :=
    forall_byte (by decide +kernel)
  unfold inCaseOf
  split
  · exact (hletters new hnew).1
  · exact (hletters new hnew).2

/-- Small letters, as many as `swap_ext_case` takes. -/
def SmallLetters (newext : Bytes) : Prop := newext.length ≤ 8 ∧ ∀ c ∈ newext, 97 ≤ c ∧ c ≤ 122

theorem smallLetters_atr : SmallLetters (ascii "atr") := by
  refine ⟨by decide, ?_⟩
  decide

theorem smallLetters_xfd : SmallLetters (ascii "xfd") := by
  refine ⟨by decide, ?_⟩
  decide

variable {newext base name newbase new : Bytes} {stale : Nat → UInt8} {magic : UInt8}

theorem fold_inCaseOf (hnewext : SmallLetters newext) (old : Nat → UInt8) :
    fold (newext.mapIdx fun i new => inCaseOf (old i) new) = newext := by
  apply ext_getElem
  · simp [fold]
  · intro i hi hi'
    simp only [fold, getElem_map, getElem_mapIdx]
    exact asciiLower_inCaseOf (hnewext.2 _ (getElem_mem hi')) (old i)

theorem swapExtCase_dot (stale : Nat → UInt8) {stem ext : Bytes} (hext : dot ∉ ext) (hnewext : SmallLetters newext)
    (hroom : stem.length + 1 + newext.length < newbaseSize) :
    ∃ new, swapExtCase stale (stem ++ dot :: ext) newext = some (stem ++ dot :: new) ∧ fold new = newext := by
  have htake : newext.take 8 = newext := take_of_length_le hnewext.1
  simp only [swapExtCase, splitLast_append hext, htake, if_pos hroom]
  exact ⟨_, rfl, fold_inCaseOf hnewext _⟩

theorem swapExtCase_bare (stale : Nat → UInt8) (hbase : dot ∉ base)
    (hroom : base.length + 1 + newext.length < newbaseSize) :
    swapExtCase stale base newext = some (base ++ dot :: newext) := by
  simp only [swapExtCase, splitLast_none.2 hbase, if_pos hroom]

theorem swapExtCase_length (h : swapExtCase stale base newext = some name) : name.length < newbaseSize := by
  unfold swapExtCase at h
  split at h
  · split at h
    · rw [← some.inj h, length_append, length_cons]
      omega
    · exact absurd h (by simp)
  · dsimp only at h
    split at h
    · rw [← some.inj h, length_append, length_cons, length_mapIdx]
      omega
    · exact absurd h (by simp)

theorem gzName_length (hnewbase : newbase.length < newbaseSize)
    (h : gzName stale newbase = some name) : name.length < newbaseSize := by
  unfold gzName at h
  split at h
  · rwa [← some.inj h]
  · next stem ext hsplit =>
    obtain ⟨hbase, -⟩ := splitLast_some hsplit
    split at h
    · rw [← some.inj h]
      rw [hbase, length_append, length_cons] at hnewbase
      omega
    · split at h
      · exact swapExtCase_length h
      · split at h
        · exact swapExtCase_length h
        · rwa [← some.inj h]

theorem outputName_length
    (hnewbase : newbase.length < newbaseSize) (h : outputName stale magic newbase = some name) :
    name.length < newbaseSize := by
  unfold outputName at h
  split at h
  · exact gzName_length hnewbase h
  · exact swapExtCase_length h

theorem not_gz_of_dcm (h : isDcm magic = true) : magic ≠ gzMagic := by
  intro hgz
  rw [hgz] at h
  exact absurd h (by decide)

theorem length_of_fold (h : fold new = newext) : new.length = newext.length := by
  rw [← h, length_fold]

theorem fold_extension (stem : Bytes) {other : Bytes} (h : fold new = fold other) :
    fold (stem ++ dot :: new) = fold (stem ++ dot :: other) := by
  rw [fold_append, fold_append]
  congr 1
  exact congrArg (asciiLower dot :: ·) h

/-- Where the rules give a name that fits, the bridge derives it, up to the case of the new extension. -/
theorem outputName_swapped (stale : Nat → UInt8) (h : SwappedName magic base name)
    (hroom : name.length < newbaseSize) : ∃ derived, outputName stale magic base = some derived ∧
      SwappedName magic base derived ∧ fold derived = fold name := by
  cases h with
  | gz hext =>
    have hdot : ∀ ext : Bytes, ext = ascii "gz" ∨ ext = ascii "GZ" → dot ∉ ext := by
      intro ext hext
      rcases hext with rfl | rfl <;> decide
    refine ⟨name, ?_, SwappedName.gz hext, rfl⟩
    simp only [outputName, if_true, gzName, splitLast_append (hdot _ hext), if_pos hext]
  | @atz stem ext new hext hnew =>
    obtain ⟨hdot, hother⟩ : dot ∉ ext ∧ ¬ (ext = ascii "gz" ∨ ext = ascii "GZ") := by
      rcases hext with rfl | rfl <;> decide
    rw [length_append, length_cons, length_of_fold hnew] at hroom
    have hfits : stem.length + 1 + (ascii "atr").length < newbaseSize := by omega
    obtain ⟨derived, hderived, hfold⟩ := swapExtCase_dot stale hdot smallLetters_atr hfits
    refine ⟨stem ++ dot :: derived, ?_, SwappedName.atz hext hfold, fold_extension stem (hfold.trans hnew.symm)⟩
    simp only [outputName, if_true, gzName, splitLast_append hdot, if_neg hother, if_pos hext, hderived]
  | @xfz stem ext new hext hnew =>
    obtain ⟨hdot, hother, hatz⟩ : dot ∉ ext ∧ ¬ (ext = ascii "gz" ∨ ext = ascii "GZ") ∧
        ¬ (ext = ascii "atz" ∨ ext = ascii "ATZ") := by
      rcases hext with rfl | rfl <;> decide
    rw [length_append, length_cons, length_of_fold hnew] at hroom
    have hfits : stem.length + 1 + (ascii "xfd").length < newbaseSize := by omega
    obtain ⟨derived, hderived, hfold⟩ := swapExtCase_dot stale hdot smallLetters_xfd hfits
    refine ⟨stem ++ dot :: derived, ?_, SwappedName.xfz hext hfold, fold_extension stem (hfold.trans hnew.symm)⟩
    simp only [outputName, if_true, gzName, splitLast_append hdot, if_neg hother, if_neg hatz, if_pos hext, hderived]
  | @dcm _ stem ext new hmagic hext hnew =>
    rw [length_append, length_cons, length_of_fold hnew] at hroom
    have hfits : stem.length + 1 + (ascii "atr").length < newbaseSize := by omega
    obtain ⟨derived, hderived, hfold⟩ := swapExtCase_dot stale hext smallLetters_atr hfits
    refine ⟨stem ++ dot :: derived, ?_, SwappedName.dcm hmagic hext hfold, fold_extension stem (hfold.trans hnew.symm)⟩
    rw [outputName, if_neg (not_gz_of_dcm hmagic), hderived]
  | @bare _ _ new hmagic hbase hnew =>
    rw [length_append, length_cons, length_of_fold hnew] at hroom
    have hfits : base.length + 1 + (ascii "atr").length < newbaseSize := by omega
    have hfold : fold (ascii "atr") = ascii "atr" := by decide
    refine ⟨base ++ dot :: ascii "atr", ?_, SwappedName.bare hmagic hbase hfold,
      fold_extension base (hfold.trans hnew.symm)⟩
    rw [outputName, if_neg (not_gz_of_dcm hmagic), swapExtCase_bare stale hbase hfits]

theorem slash_not_mem_of_fold (h : fold new = newext) (hnewext : slash ∉ newext) : slash ∉ new := by
  intro hmem
  apply hnewext
  rw [← h]
  exact mem_map.2 ⟨slash, hmem, by decide⟩

theorem SwappedName.slash_not_mem (h : SwappedName magic base name) (hbase : slash ∉ base) : slash ∉ name := by
  have hextension : ∀ {stem new newext : Bytes}, slash ∉ stem → fold new = newext → slash ∉ newext →
      slash ∉ stem ++ dot :: new := by
    intro stem new newext hstem hnew hnewext hmem
    rcases mem_append.1 hmem with hmem | hmem
    · exact hstem hmem
    · rcases mem_cons.1 hmem with hmem | hmem
      · exact absurd hmem (by decide)
      · exact slash_not_mem_of_fold hnew hnewext hmem
  cases h with
  | gz hext => exact fun hmem => hbase (mem_append_left _ hmem)
  | atz hext hnew
  | xfz hext hnew
  | dcm hmagic hext hnew => exact hextension (fun hmem => hbase (mem_append_left _ hmem)) hnew (by decide)
  | bare hmagic hdot hnew => exact hextension hbase hnew (by decide)

/-! ### Calls -/

section Calls

variable (conversions : Conversions) (stale : Nat → UInt8) (card : Card) (path : Bytes) (outSize : Nat)

/-- A call with a path and a buffer of the caller's. -/
def uncompressCall : Option Uncompressed := emuxAtariUncompress conversions stale card (some path) (some outSize)

/-- What a call promises: it writes inside its buffer and leaves the input as it was. The output it derives has the name
that the rules give, with no name cut, in the directory of the input and not under the input's name. A success reports an
output that holds the whole conversion of the input. -/
structure UncompressSafe : Prop where
  inBounds : uncompressCall conversions stale card path outSize ≠ none
  unchanged : ∀ r, uncompressCall conversions stale card path outSize = some r → r.card.read path = card.read path
  derived : ∀ r out, uncompressCall conversions stale card path outSize = some r → r.outPath = some out →
    ∃ content magic name, card.read path = some content ∧ content.head? = some magic ∧
      (splitPath path).2.length < newbaseSize ∧ SwappedName magic (splitPath path).2 name ∧
        out = (splitPath path).1 ++ name ∧ slash ∉ name ∧ fold out ≠ fold path
  complete : ∀ r, uncompressCall conversions stale card path outSize = some r → r.status = 0 →
    ∃ content magic out written, card.read path = some content ∧ content.head? = some magic ∧ r.outPath = some out ∧
      r.card.read out = some written ∧ conversions.converter magic (some content) = (written, true)

/-- The rules give the input another name, the buffer holds both names and the caller's buffer the whole path. -/
def NewNameFits (magic : UInt8) : Prop :=
  ∃ name, SwappedName magic (splitPath path).2 name ∧ fold name ≠ fold (splitPath path).2 ∧
    (splitPath path).2.length < newbaseSize ∧ name.length < newbaseSize ∧
      (splitPath path).1.length + name.length < outSize

/-- The files that are converted: gzip streams and DCM images. -/
def Convertible (magic : UInt8) : Prop := magic = gzMagic ∨ isDcm magic = true

variable {conversions stale card path outSize}

variable {content outPath : Bytes} {magic : UInt8}

theorem uncompressCall_convertible (houtSize : outSize ≠ 0)
    (hcontent : card.read path = some content) (hmagic : content.head? = some magic) (hconvertible : Convertible magic) :
    uncompressCall conversions stale card path outSize =
      (outputName stale magic ((splitPath path).2.take (newbaseSize - 1))).map fun name =>
        convert conversions card path magic (((splitPath path).1 ++ name).take (outSize - 1)) := by
  unfold Convertible at hconvertible
  simp only [uncompressCall, emuxAtariUncompress, if_neg houtSize, hcontent, hmagic, if_pos hconvertible]
  cases outputName stale magic ((splitPath path).2.take (newbaseSize - 1)) <;> rfl

theorem uncompressCall_other
    (h : ¬ ∃ content magic, outSize ≠ 0 ∧ card.read path = some content ∧ content.head? = some magic ∧ Convertible magic) :
    uncompressCall conversions stale card path outSize = some { status := -1, outPath := none, card := card } := by
  unfold uncompressCall emuxAtariUncompress
  dsimp only
  split
  · rfl
  · next houtSize =>
    cases hcontent : card.read path with
    | none => rfl
    | some content =>
      cases hmagic : content.head? with
      | none => simp only [hmagic]
      | some magic =>
        have hother : ¬ (magic = gzMagic ∨ isDcm magic = true) :=
          fun hconvertible => h ⟨content, magic, houtSize, hcontent, hmagic, hconvertible⟩
        simp only [hmagic, if_neg hother]

theorem convert_outPath (magic : UInt8) (outPath : Bytes) :
    (convert conversions card path magic outPath).outPath = some outPath := by
  unfold convert
  split <;> rfl

theorem convert_unchanged (h : fold path ≠ fold outPath) :
    (convert conversions card path magic outPath).card.read path = card.read path := by
  unfold convert
  split
  · dsimp only
    rw [Card.read_write_of_ne h, Card.read_write_of_ne h]
  · rfl

theorem convert_complete (h : fold path ≠ fold outPath)
    (hstatus : (convert conversions card path magic outPath).status = 0) :
    ∃ written, (convert conversions card path magic outPath).card.read outPath = some written ∧
      conversions.converter magic (card.read path) = (written, true) := by
  unfold convert at hstatus ⊢
  by_cases hopens : conversions.opens card outPath = true
  · rw [if_pos hopens] at hstatus ⊢
    dsimp only at hstatus ⊢
    rw [Card.read_write_of_ne h] at hstatus ⊢
    rw [Card.read_write_self]
    refine ⟨_, rfl, Prod.ext rfl ?_⟩
    by_contra hfailed
    rw [Bool.not_eq_true] at hfailed
    rw [hfailed] at hstatus
    exact absurd hstatus (by decide)
  · rw [if_neg hopens] at hstatus
    exact absurd hstatus (by simp)

theorem uncompress_safe_of_fits (houtSize : outSize ≠ 0)
    (hcontent : card.read path = some content) (hmagic : content.head? = some magic) (hconvertible : Convertible magic)
    (hfits : NewNameFits path outSize magic) : UncompressSafe conversions stale card path outSize := by
  obtain ⟨name, hname, hother, hbase, hroom, hout⟩ := hfits
  obtain ⟨derived, hderived, hswapped, hfold⟩ := outputName_swapped stale hname hroom
  obtain ⟨hpath, hslash⟩ := splitPath_eq path
  have hlength : derived.length = name.length := by
    rw [length_of_fold hfold, length_fold]
  have htake : (splitPath path).2.take (newbaseSize - 1) = (splitPath path).2 := take_of_length_le (by omega)
  have hwhole : ((splitPath path).1 ++ derived).take (outSize - 1) = (splitPath path).1 ++ derived := by
    apply take_of_length_le
    rw [length_append]
    omega
  have hrun := @uncompressCall_convertible conversions stale card path outSize _ _ houtSize hcontent hmagic hconvertible
  rw [htake, hderived, map_some, hwhole] at hrun
  have hne : fold ((splitPath path).1 ++ derived) ≠ fold path := by
    intro hsame
    apply hother
    rw [← hfold]
    have hsplit : fold (splitPath path).1 ++ fold derived = fold (splitPath path).1 ++ fold (splitPath path).2 := by
      rw [← fold_append, ← fold_append, hpath, hsame]
    exact append_cancel_left hsplit
  refine ⟨by rw [hrun]; simp, fun r hr => ?_, fun r out hr houtPath => ?_, fun r hr hstatus => ?_⟩
  · rw [hrun, some.injEq] at hr
    rw [← hr]
    exact convert_unchanged (Ne.symm hne)
  · rw [hrun, some.injEq] at hr
    rw [← hr, convert_outPath, some.injEq] at houtPath
    rw [← houtPath]
    exact ⟨content, magic, derived, hcontent, hmagic, hbase, hswapped, rfl, hswapped.slash_not_mem hslash, hne⟩
  · rw [hrun, some.injEq] at hr
    rw [← hr] at hstatus ⊢
    obtain ⟨written, hwritten, hconverted⟩ := convert_complete (Ne.symm hne) hstatus
    rw [hcontent] at hconverted
    exact ⟨content, magic, _, written, hcontent, hmagic, convert_outPath magic _, hwritten, hconverted⟩

/-- The call is safe exactly if a file that is converted gets another name, and the names fit. -/
theorem uncompress_safe_iff : UncompressSafe conversions stale card path outSize ↔
    ∀ content magic, outSize ≠ 0 → card.read path = some content → content.head? = some magic → Convertible magic →
      NewNameFits path outSize magic := by
  constructor
  · intro h content magic houtSize hcontent hmagic hconvertible
    have hrun := @uncompressCall_convertible conversions stale card path outSize _ _ houtSize hcontent hmagic hconvertible
    cases hderived : outputName stale magic ((splitPath path).2.take (newbaseSize - 1)) with
    | none =>
      rw [hderived] at hrun
      exact absurd hrun h.inBounds
    | some derived =>
      rw [hderived, map_some] at hrun
      obtain ⟨content', magic', name, hcontent', hmagic', hbase, hname, hout, -, hne⟩ :=
        h.derived _ _ hrun (convert_outPath magic _)
      rw [hcontent, some.injEq] at hcontent'
      rw [← hcontent', hmagic, some.injEq] at hmagic'
      rw [← hmagic'] at hname
      have hlength := congrArg List.length hout
      rw [length_take, length_append, length_append] at hlength
      have hderivedLength : derived.length < newbaseSize :=
        outputName_length (by rw [length_take]; omega) hderived
      refine ⟨name, hname, fun hsame => ?_, hbase, by omega, by omega⟩
      apply hne
      rw [hout, fold_append, hsame, ← fold_append, (splitPath_eq path).1]
  · intro h
    by_cases hfile : ∃ content magic, outSize ≠ 0 ∧ card.read path = some content ∧ content.head? = some magic ∧ Convertible magic
    · obtain ⟨content, magic, houtSize, hcontent, hmagic, hconvertible⟩ := hfile
      exact uncompress_safe_of_fits houtSize hcontent hmagic hconvertible (h content magic houtSize hcontent hmagic hconvertible)
    · have hrun := @uncompressCall_other conversions stale card path outSize hfile
      refine ⟨by rw [hrun]; simp, fun r hr => ?_, fun r out hr houtPath => ?_, fun r hr hstatus => ?_⟩
      · rw [hrun, some.injEq] at hr
        rw [← hr]
      · rw [hrun, some.injEq] at hr
        rw [← hr] at houtPath
        exact absurd houtPath (by simp)
      · rw [hrun, some.injEq] at hr
        rw [← hr] at hstatus
        exact absurd hstatus (by simp)

end Calls

/-- A card that converts nothing: each conversion finds its input empty and writes nothing. -/
def emptyConversions : Conversions where
  extractGz := fun _ => ([], true)
  dcmToAtr := fun _ => ([], false)
  opens := fun _ _ => true

def gzippedImage : Card where
  file := fun path => if path = ascii "sd:/disk.img" then some [0x1f, 0x8b, 0x08] else none

/-- A compressed file whose extension no rule knows is emptied. -/
theorem compressed_image_emptied :
    ¬ UncompressSafe emptyConversions (fun _ => 0) gzippedImage (ascii "SD:/disk.img") 1024 := by
  intro h
  obtain ⟨r, hr⟩ := ne_none_iff_exists'.1 h.inBounds
  have hunchanged := h.unchanged r hr
  have hemptied : (uncompressCall emptyConversions (fun _ => 0) gzippedImage (ascii "SD:/disk.img") 1024).map
      (fun r => r.card.read (ascii "SD:/disk.img")) = some (some []) := by decide
  rw [hr, map_some, some.injEq, hunchanged] at hemptied
  exact absurd hemptied (by decide)

end Bmx.Atari
