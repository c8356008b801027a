import Bmx.NewIo.Medium

/-!
# Descriptors and the files they stand for

A descriptor stands for a file with a position, whether it is cached or not. Every call keeps that, whatever
fails below it, as long as no failure leaves the FatFs pointer away from the position.
-/

namespace Bmx.NewIo

open Bmx.NewIo.Medium hiding content available

open Interaction FatFs List Option

/-- A failure that a call at a position survives. A call is `strict` where it has changed the position
before. Without a position everything is harmless. -/
def Harmless (position : Option Nat) (strict : Prop) (m : Medium) (op : Op) (answer : op.Answer) (m' : Medium) : Prop :=
  Refused op answer → ¬ strict ∧ ∀ before, position = some before →
    match op with
    | .read .caching _ => m'.aborted = true ∨ m.fptr = before
    | .lseek .spilled offset => m'.aborted = true ∨ m.fptr = offset
    | .write .direct _ => m'.content.take m.content.length = m.content
    | _ => True

/-- A card on which, if anything, only harmless things fail. -/
def careful (fails : Prop) (position : Option Nat) (strict : Prop) : Env signature Medium := fun op m answer m' =>
  m.Performs op answer m' ∨ fails ∧ m.Fails op answer m' ∧ Harmless position strict m op answer m'

section

variable {fails strict : Prop} {position : Option Nat} {m m' : Medium} {site : Site}

/-! ### Answers -/

variable {answer : FResult} {count size : Nat} {bytes : Bytes}

theorem careful_lseek {offset : Nat} (h : careful fails position strict (.lseek site offset) m answer m') :
    (answer = .ok ∧ m.aborted = false ∧ (offset ≤ m.content.length → m' = { m with fptr := offset })) ∨
      (answer ≠ .ok ∧ fails ∧ ¬ strict ∧ m.Spoiled m' ∧
        (site = .spilled → position ≠ none → m'.aborted = true ∨ m.fptr = offset)) := by
  rcases h with hperforms | ⟨hfails, hfailed, hharmless⟩
  · exact .inl ⟨hperforms.2.1, hperforms.1, hperforms.2.2.2⟩
  · refine .inr ⟨hfailed.1, hfails, (hharmless hfailed.1).1, hfailed.2, ?_⟩
    rintro rfl hposition
    obtain ⟨before, hbefore⟩ := ne_none_iff_exists'.1 hposition
    exact (hharmless hfailed.1).2 before hbefore

theorem careful_read {answer : FResult × Bytes} (h : careful fails position strict (.read site count) m answer m') :
    (answer.1 = .ok ∧ m.aborted = false ∧ ∃ most, most ≤ count ∧ (most = count ∨ fails) ∧
        answer.2 = m.available most ∧ m' = { m with fptr := m.fptr + (m.available most).length } ∧
        (most = count ∨ (answer.2 = [] → ¬ strict ∧
          (site = .caching → ∀ before, position = some before → m.fptr = before)))) ∨
      (answer.1 ≠ .ok ∧ answer.1 ≠ .notEnoughCore ∧ fails ∧ ¬ strict ∧ m.Spoiled m' ∧
        (site = .caching → ∀ before, position = some before → m'.aborted = true ∨ m.fptr = before)) := by
  rcases h with hperforms | ⟨hfails, hfailed, hharmless⟩
  · obtain ⟨hsound, rfl, hm'⟩ := hperforms
    exact .inl ⟨rfl, hsound, count, Nat.le_refl _, .inl rfl, rfl, hm', .inl rfl⟩
  rcases hfailed with ⟨herror, hcore, hspoiled⟩ | ⟨hsound, fewer, hfewer, rfl, rfl⟩
  · refine .inr ⟨herror, hcore, hfails, (hharmless (.inl herror)).1, hspoiled, ?_⟩
    rintro rfl
    exact (hharmless (.inl herror)).2
  · refine .inl ⟨rfl, hsound, fewer, Nat.le_of_lt hfewer, .inr hfails, rfl, rfl, .inr ?_⟩
    intro hempty
    refine ⟨(hharmless (.inr hempty)).1, ?_⟩
    rintro rfl before hbefore
    rcases (hharmless (.inr hempty)).2 before hbefore with haborted | hposition
    · exact absurd haborted (by rw [hsound]; decide)
    · exact hposition

theorem careful_write {answer : FResult × Nat} (h : careful fails position strict (.write site bytes) m answer m') :
    (answer.1 = .ok ∧ m.aborted = false ∧ answer.2 ≤ bytes.length ∧ (answer.2 = bytes.length ∨ fails) ∧
        m' = m.stored (bytes.take answer.2) ∧ (answer.2 = bytes.length ∨ (answer.2 = 0 → ¬ strict))) ∨
      (answer.1 ≠ .ok ∧ fails ∧ ¬ strict ∧
        (m' = m ∨ m.aborted = false ∧ m'.aborted = true ∧ m'.file ≠ none ∧
          (site = .direct → position ≠ none → m'.content.take m.content.length = m.content))) := by
  rcases h with hperforms | ⟨hfails, hfailed, hharmless⟩
  · obtain ⟨hsound, rfl, rfl⟩ := hperforms
    refine .inl ⟨rfl, hsound, Nat.le_refl _, .inl rfl, ?_, .inl rfl⟩
    rw [take_length]
  rcases hfailed with ⟨herror, hspoiled⟩ | ⟨hsound, fewer, hfewer, rfl, rfl⟩
  · refine .inr ⟨herror, hfails, (hharmless (.inl herror)).1, ?_⟩
    rcases hspoiled with hsame | ⟨hsound, haborted, fewer, hfile⟩
    · exact .inl hsame
    · refine .inr ⟨hsound, haborted, by rw [hfile]; exact some_ne_none _, ?_⟩
      rintro rfl hposition
      obtain ⟨before, hbefore⟩ := ne_none_iff_exists'.1 hposition
      exact (hharmless (.inl herror)).2 before hbefore
  · exact .inl ⟨rfl, hsound, Nat.le_of_lt hfewer, .inr hfails, rfl, .inr fun hnone => (hharmless (.inr hnone)).1⟩

theorem careful_truncate (h : careful fails position strict .truncate m answer m') :
    (answer = .ok ∧ m.aborted = false ∧ m' = { m with file := some (m.content.take m.fptr) }) ∨
      (answer ≠ .ok ∧ fails ∧ ¬ strict ∧ (m' = m ∨ m'.file ≠ none)) := by
  rcases h with hperforms | ⟨hfails, hfailed, hharmless⟩
  · exact .inl ⟨hperforms.2.1, hperforms.1, hperforms.2.2⟩
  · exact .inr ⟨hfailed.1, hfails, (hharmless hfailed.1).1, hfailed.2.imp id fun hspoiled => hspoiled.2.2⟩

theorem careful_sync (h : careful fails position strict .sync m answer m') :
    (answer = .ok ∧ m.aborted = false ∧ m' = m) ∨ (answer ≠ .ok ∧ fails ∧ ¬ strict ∧ m.Spoiled m') := by
  rcases h with hperforms | ⟨hfails, hfailed, hharmless⟩
  · exact .inl ⟨hperforms.2.1, hperforms.1, hperforms.2.2⟩
  · exact .inr ⟨hfailed.1, hfails, (hharmless hfailed.1).1, hfailed.2⟩

theorem careful_malloc {answer : Option Bytes} (h : careful fails position strict (.malloc size) m answer m') :
    m' = m ∧ ((∃ block, answer = some block ∧ block.length = size) ∨ (answer = none ∧ fails ∧ ¬ strict)) := by
  rcases h with hperforms | ⟨hfails, hfailed, hharmless⟩
  · exact ⟨hperforms.1, .inl hperforms.2⟩
  · exact ⟨hfailed.2, .inr ⟨hfailed.1, hfails, (hharmless hfailed.1).1⟩⟩

theorem careful_realloc {old : Bytes} {answer : Option Bytes}
    (h : careful fails position strict (.realloc old size) m answer m') :
    m' = m ∧ ((∃ block, answer = some block ∧ block.length = size ∧ block.take old.length = old.take size) ∨
      (answer = none ∧ fails ∧ ¬ strict)) := by
  rcases h with hperforms | ⟨hfails, hfailed, hharmless⟩
  · exact ⟨hperforms.1, .inl hperforms.2⟩
  · exact ⟨hfailed.2, .inr ⟨hfailed.1, hfails, (hharmless hfailed.1).1⟩⟩

theorem Medium.Spoiled.file (h : m.Spoiled m') : m'.file = m.file := by
  rcases h with rfl | ⟨-, -, hfile⟩
  · rfl
  · exact hfile

theorem Medium.Spoiled.content (h : m.Spoiled m') : m'.content = m.content := by
  unfold Medium.content
  rw [h.file]

theorem Medium.Spoiled.sound (h : m.Spoiled m') (hsound : m'.aborted = false) : m' = m := by
  rcases h with hsame | ⟨-, haborted, -⟩
  · exact hsame
  · exact absurd hsound (by rw [haborted]; decide)

@[simp] theorem Medium.content_stored (bytes : Bytes) :
    (m.stored bytes).content = overwrite m.content m.fptr bytes := rfl

theorem Medium.file_eq (h : m.file ≠ none) : m.file = some m.content := by
  unfold Medium.content
  cases hfile : m.file with
  | none => exact absurd hfile h
  | some content => rfl

/-! ### Transfers -/

theorem Medium.length_available (h : m.fptr + count ≤ m.content.length) : (m.available count).length = count := by
  unfold Medium.available
  rw [length_take, length_drop]
  omega

theorem Medium.available_add (first more : Nat) :
    m.available first ++ Medium.available { m with fptr := m.fptr + first } more = m.available (first + more) := by
  unfold Medium.available
  rw [take_add, drop_drop]
  rfl

theorem Medium.stored_append {part more : Bytes} (h : m.fptr ≤ m.content.length) :
    (m.stored part).stored more = m.stored (part ++ more) := by
  unfold stored
  congr 1
  · congr 1
    exact overwrite_append h
  · rw [length_append, ← Nat.add_assoc]

theorem Medium.stored_nil (hfile : m.file ≠ none) : m.stored [] = m := by
  unfold stored
  rw [overwrite_nil, ← file_eq hfile]
  rfl

abbrev Keeps {α : Type} (fails : Prop) (position : Option Nat) (strict : Prop) (p : Program signature α) (m : Medium)
    (Q : α → Medium → Prop) : Prop :=
  p.Holds ((careful fails position strict).under fun _ => True) Q m

theorem Keeps.ask {α : Type} {op : Op} {f : op.Answer → Program signature α} {Q : α → Medium → Prop}
    (h : ∀ answer m', careful fails position strict op m answer m' → Keeps fails position strict (f answer) m' Q) :
    Keeps fails position strict (Program.perform (S := signature) op >>= f) m Q :=
  ⟨trivial, h⟩

theorem readExact_keeps (size : Nat) (hsound : m.aborted = false) (hsize : m.fptr + size ≤ m.content.length) :
    Keeps fails position strict (readExact size) m fun result m' =>
      match result with
      | .ok bytes => m' = { m with fptr := m.fptr + size } ∧ bytes = m.available size
      | .error errno => fails ∧ ¬ strict ∧ errno ≠ .enomem ∧ m'.file = m.file ∧
          (m'.aborted = false → ∀ before, position = some before → m'.fptr = before) := by
  induction size using Nat.strongRecOn generalizing m with
  | ind size ih =>
    rw [readExact]
    by_cases hnone : size = 0
    · subst hnone
      refine ⟨rfl, ?_⟩
      unfold Medium.available
      rw [take_zero]
    rw [if_neg hnone]
    apply Keeps.ask
    intro answer m₁ hanswer
    dsimp only
    rcases careful_read hanswer with ⟨hok, -, most, hmost, hfull, hbytes, rfl, hshort⟩ | ⟨herror, hcore, hfails, hstrict, hspoiled, hptr⟩
    · have hlength : (m.available most).length = most := length_available (by omega)
      obtain ⟨result, bytes⟩ := answer
      subst hok
      subst hbytes
      by_cases hempty : m.available most = []
      · have hzero : most = 0 := by rw [← hlength, hempty, length_nil]
        obtain ⟨hstrict, hptr⟩ := hshort.resolve_left (by omega) hempty
        rw [if_neg (by simp), dif_pos hempty]
        refine ⟨hfull.resolve_left (by omega), hstrict, by decide, rfl, ?_⟩
        intro _ before hbefore
        rw [hlength, hzero, Nat.add_zero]
        exact hptr rfl before hbefore
      · have hpos : 0 < most := by
          rw [← hlength]
          exact length_pos_iff.2 hempty
        rw [if_neg (by simp), dif_neg hempty, hlength]
        have hrest : Keeps fails position strict (readExact (size - most)) { m with fptr := m.fptr + most } _ :=
          ih (size - most) (by omega) hsound (by change m.fptr + most + (size - most) ≤ m.content.length; omega)
        apply hrest.bind
        intro result m₂ hresult
        cases result with
        | error errno => exact hresult
        | ok rest =>
          obtain ⟨rfl, rfl⟩ := hresult
          have hsum : most + (size - most) = size := by omega
          refine ⟨?_, ?_⟩
          · congr 1
            change m.fptr + most + (size - most) = _
            omega
          · rw [available_add, hsum]
    · obtain ⟨result, bytes⟩ := answer
      rw [if_pos herror]
      refine ⟨hfails, hstrict, ?_, hspoiled.file, ?_⟩
      · intro hmemory
        apply hcore
        cases result <;> first | rfl | cases hmemory
      · intro hsound' before hbefore
        rcases hptr rfl before hbefore with haborted | hposition
        · exact absurd hsound' (by rw [haborted]; decide)
        · rw [hspoiled.sound hsound', hposition]

theorem writeExact_keeps (bytes : Bytes) (hsound : m.aborted = false) (hfile : m.file ≠ none)
    (hptr : m.fptr ≤ m.content.length) :
    Keeps fails position strict (writeExact bytes) m fun result m' =>
      match result with
      | .ok () => m' = m.stored bytes
      | .error _ => fails ∧ ¬ strict ∧ m'.file ≠ none := by
  induction hlength : bytes.length using Nat.strongRecOn generalizing m bytes with
  | ind length ih =>
    rw [writeExact]
    by_cases hnone : bytes = []
    · rw [dif_pos hnone, hnone]
      exact (stored_nil hfile).symm
    rw [dif_neg hnone]
    apply Keeps.ask
    intro answer m₁ hanswer
    obtain ⟨result, count⟩ := answer
    dsimp only
    rcases careful_write hanswer with ⟨hok, -, hcount, hfull, rfl, hshort⟩ | ⟨herror, hfails, hstrict, hspoiled⟩
    · subst hok
      have hpos := length_pos_iff.2 hnone
      by_cases hzero : count = 0
      · rw [dif_pos hzero]
        refine ⟨hfull.resolve_left (by omega), hshort.resolve_left (by omega) hzero, ?_⟩
        exact some_ne_none _
      · rw [dif_neg hzero]
        have hstored : (m.stored (bytes.take count)).fptr ≤ (m.stored (bytes.take count)).content.length := by
          rw [content_stored, length_overwrite hptr]
          exact Nat.le_max_right _ _
        have hshorter : (bytes.drop count).length < length := by
          rw [length_drop]
          omega
        have hsound' : (m.stored (bytes.take count)).aborted = false := hsound
        have hrest := ih _ hshorter (bytes.drop count) hsound' (some_ne_none _) hstored rfl
        apply hrest.mono
        intro result m₂ hresult
        cases result with
        | error errno => exact hresult
        | ok u =>
          change m₂ = _ at hresult
          rw [hresult, stored_append hptr, take_append_drop]
    · rw [if_pos herror]
      refine ⟨hfails, hstrict, ?_⟩
      rcases hspoiled with rfl | ⟨-, -, hpresent, -⟩
      · exact hfile
      · exact hpresent

/-! ### What a descriptor stands for -/

/-- The descriptor stands for this open file. -/
structure Represents (file : CircleFile) (m : Medium) (r : RefFile) : Prop where
  size : file.size = r.content.length
  position : file.position = r.position
  inside : r.position ≤ r.content.length
  mode : file.mode = r.mode
  append : file.flags.append = r.append
  present : m.file ≠ none
  cache : file.cached = true → file.contents.length = file.allocated ∧ file.size ≤ file.allocated ∧
    file.contents.take file.size = r.content ∧ (file.writtenTo = false → m.content = r.content)
  direct : file.cached = false → m.content.take file.size = r.content ∧
    (m.aborted = false → m.content = r.content ∧ m.fptr = file.position)
  reading : r.mode = .rdonly → file.writtenTo = false ∧ m.content = r.content

variable {file : CircleFile} {r : RefFile}

theorem Represents.spoiled (h : Represents file m r) (hspoiled : m.Spoiled m') : Represents file m' r where
  size := h.size
  position := h.position
  inside := h.inside
  mode := h.mode
  append := h.append
  present := by
    rw [hspoiled.file]
    exact h.present
  cache := by
    intro hcached
    rw [hspoiled.content]
    exact h.cache hcached
  direct := by
    intro hdirect
    rw [hspoiled.content]
    refine ⟨(h.direct hdirect).1, ?_⟩
    intro hsound
    rw [← hspoiled.content, hspoiled.sound hsound]
    rw [hspoiled.sound hsound] at hsound
    exact (h.direct hdirect).2 hsound
  reading := by
    intro hmode
    rw [hspoiled.content]
    exact h.reading hmode

theorem Represents.available (h : Represents file m r) (hdirect : file.cached = false) (hsound : m.aborted = false)
    (count : Nat) : m.available count = (r.content.drop r.position).take count := by
  have hmedium := (h.direct hdirect).2 hsound
  unfold Medium.available
  rw [hmedium.1, hmedium.2, h.position]

theorem flushCachedFile_keeps (h : Represents file m r) (hcached : file.cached = true) :
    Keeps fails position strict (flushCachedFile file) m fun result m' =>
      match result with
      | .ok () => m'.file = some r.content ∧ (file.writtenTo = true → m'.aborted = false)
      | .error _ => fails ∧ ¬ strict ∧ file.writtenTo = true ∧ m'.file ≠ none := by
  obtain ⟨hlength, hsize, hcontents, hclean⟩ := h.cache hcached
  unfold flushCachedFile
  by_cases hwritten : file.writtenTo = false
  · rw [if_pos (.inr hwritten)]
    refine ⟨?_, fun hdirty => absurd hwritten (by rw [hdirty]; decide)⟩
    rw [← hclean hwritten]
    exact file_eq h.present
  rw [if_neg (by rw [hcached]; simp [hwritten])]
  have hdirty : file.writtenTo = true := by simpa using hwritten
  apply Keeps.ask
  intro begun m₁ hbegun
  rcases careful_lseek hbegun with ⟨rfl, hsound, hat⟩ | ⟨herror, hfails, hstrict, hspoiled, -⟩
  · obtain rfl := hat (Nat.zero_le _)
    have hwrite : Keeps fails position strict (writeExact (file.contents.take file.size)) { m with fptr := 0 } _ :=
      writeExact_keeps _ hsound h.present (Nat.zero_le _)
    apply hwrite.bind
    intro result m₂ hresult
    cases result with
    | error errno => exact ⟨hresult.1, hresult.2.1, hdirty, hresult.2.2⟩
    | ok u =>
      change m₂ = _ at hresult
      subst hresult
      rw [hcontents]
      apply Keeps.ask
      intro ended m₃ hended
      have hstored : file.size ≤ (stored { m with fptr := 0 } r.content).content.length := by
        rw [content_stored, length_overwrite (Nat.zero_le _), h.size]
        omega
      rcases careful_lseek hended with ⟨rfl, -, hat⟩ | ⟨herror, hfails, hstrict, hspoiled, -⟩
      · obtain rfl := hat hstored
        apply Keeps.ask
        intro truncated m₄ htruncated
        rcases careful_truncate htruncated with ⟨rfl, -, rfl⟩ | ⟨herror, hfails, hstrict, hspoiled⟩
        · rw [if_neg (by simp)]
          have hfile : (overwrite m.content 0 r.content).take file.size = r.content := by
            rw [h.size]
            exact take_overwrite_zero
          apply Keeps.ask
          intro synced m₅ hsynced
          rcases careful_sync hsynced with ⟨rfl, -, rfl⟩ | ⟨herror, hfails, hstrict, hspoiled⟩
          · rw [if_neg (by simp)]
            exact ⟨congrArg some hfile, fun _ => hsound⟩
          · rw [if_pos herror]
            refine ⟨hfails, hstrict, hdirty, ?_⟩
            rw [hspoiled.file]
            exact some_ne_none _
        · rw [if_pos herror]
          refine ⟨hfails, hstrict, hdirty, ?_⟩
          rcases hspoiled with rfl | hpresent
          · exact some_ne_none _
          · exact hpresent
      · rw [if_pos herror]
        refine ⟨hfails, hstrict, hdirty, ?_⟩
        rw [hspoiled.file]
        exact some_ne_none _
  · rw [if_pos herror]
    refine ⟨hfails, hstrict, hdirty, ?_⟩
    rw [hspoiled.file]
    exact h.present

/-! ### Conversions -/

/-- A cached descriptor that stands for the file that is on the card. -/
theorem Represents.cached (h : Represents file m r) (hsame : m'.file = m.file) (hcontent : m.content = r.content) :
    Represents { file with contents := r.content, allocated := file.size, cached := true } m' r where
  size := h.size
  position := h.position
  inside := h.inside
  mode := h.mode
  append := h.append
  present := by
    rw [hsame]
    exact h.present
  cache := by
    intro _
    refine ⟨h.size.symm, Nat.le_refl _, ?_, ?_⟩
    · dsimp only
      rw [h.size, take_length]
    · intro _
      unfold Medium.content at hcontent ⊢
      rw [hsame, hcontent]
  direct := fun hdirect => absurd hdirect (by simp)
  reading := by
    intro hmode
    refine ⟨(h.reading hmode).1, ?_⟩
    unfold Medium.content at hcontent ⊢
    rw [hsame, hcontent]

theorem cacheFile_keeps (h : Represents file m r) (hdirect : file.cached = false) (hsize : file.size ≤ fileCacheLimit)
    (hcontent : m.content = r.content) (errno : Errno) :
    Keeps fails position strict (cacheFile file errno) m fun result m' =>
      match result with
      | .ok file' => Represents file' m' r ∧ file'.cached = true
      | .error _ => fails ∧ ¬ strict ∧ (position = some file.position → Represents file m' r) := by
  unfold cacheFile
  rw [if_neg (by simp [hdirect]), if_neg (by omega)]
  by_cases hempty : file.size = 0
  · rw [if_pos hempty]
    have hnone : r.content = [] := eq_nil_of_length_eq_zero (by rw [← h.size, hempty])
    have hcached := h.cached rfl hcontent
    have hblock : CircleFile.mk r.content file.size file.size file.position file.mode file.flags file.writtenTo true =
        CircleFile.mk [] 0 file.size file.position file.mode file.flags file.writtenTo true := by
      rw [hnone, hempty]
    exact ⟨hblock ▸ hcached, rfl⟩
  rw [if_neg hempty]
  apply Keeps.ask
  intro block m₁ hblock
  obtain ⟨rfl, hsome | ⟨rfl, hfails, hstrict⟩⟩ := careful_malloc hblock
  · obtain ⟨block, rfl, -⟩ := hsome
    apply Keeps.ask
    intro begun m₂ hbegun
    rcases careful_lseek hbegun with ⟨rfl, hsound, hat⟩ | ⟨herror, hfails, hstrict, hspoiled, -⟩
    · obtain rfl := hat (Nat.zero_le _)
      have hread : Keeps fails position strict (readExact file.size) { m₁ with fptr := 0 } _ :=
        readExact_keeps _ hsound (by
          change 0 + file.size ≤ m₁.content.length
          rw [hcontent, ← h.size]
          omega)
      apply hread.bind
      intro result m₃ hresult
      cases result with
      | error errno =>
        obtain ⟨hfails, hstrict, -, hfile, hptr⟩ := hresult
        refine ⟨hfails, hstrict, ?_⟩
        intro hposition
        have hsame : m₃.content = m₁.content := by
          unfold Medium.content
          rw [hfile]
        refine ⟨h.size, h.position, h.inside, h.mode, h.append, ?_, ?_, ?_, ?_⟩
        · rw [hfile]
          exact h.present
        · intro hcached
          exact absurd hcached (by rw [hdirect]; decide)
        · intro _
          rw [hsame]
          refine ⟨(h.direct hdirect).1, ?_⟩
          intro hsound'
          exact ⟨hcontent, hptr hsound' _ hposition⟩
        · intro hmode
          rw [hsame]
          exact h.reading hmode
      | ok contents =>
        obtain ⟨rfl, rfl⟩ := hresult
        have hcontents : Medium.available { m₁ with fptr := 0 } file.size = r.content := by
          change (m₁.content.drop 0).take file.size = r.content
          rw [drop_zero, hcontent, h.size, take_length]
        rw [hcontents]
        exact ⟨h.cached rfl hcontent, rfl⟩
    · rw [if_pos herror]
      exact ⟨hfails, hstrict, fun _ => h.spoiled hspoiled⟩
  · exact ⟨hfails, hstrict, fun _ => h⟩

theorem Represents.unflushed (h : Represents file m r) (hcached : file.cached = true) (hdirty : file.writtenTo = true)
    (hpresent : m'.file ≠ none) : Represents file m' r := by
  refine ⟨h.size, h.position, h.inside, h.mode, h.append, hpresent, ?_, ?_, ?_⟩
  · intro _
    obtain ⟨hlength, hsize, hcontents, -⟩ := h.cache hcached
    exact ⟨hlength, hsize, hcontents, fun hclean => absurd hdirty (by rw [hclean]; decide)⟩
  · intro hdirect
    exact absurd hcached (by rw [hdirect]; decide)
  · intro hmode
    exact absurd hdirty (by rw [(h.reading hmode).1]; decide)

theorem spillCache_keeps (h : Represents file m r) (hcached : file.cached = true) (hposition : position ≠ none) :
    Keeps fails position strict (spillCache file) m fun result m' =>
      Represents result.2 m' r ∧
        match result.1 with
        | none => result.2.cached = false ∧ m'.aborted = false
        | some _ => fails ∧ ¬ strict := by
  unfold spillCache
  rw [if_neg (by simp [hcached])]
  apply (flushCachedFile_keeps h hcached).bind
  intro result m₁ hresult
  cases result with
  | error errno =>
    obtain ⟨hfails, hstrict, hdirty, hpresent⟩ := hresult
    exact ⟨h.unflushed hcached hdirty hpresent, hfails, hstrict⟩
  | ok u =>
    obtain ⟨hfile, -⟩ := hresult
    have hcontent : m₁.content = r.content := by
      unfold Medium.content
      rw [hfile]
      rfl
    have hspilled : ∀ m' : Medium, m'.file = m₁.file → (m'.aborted = false → m'.fptr = file.position) →
        Represents { releaseFileContents file with cached := false } m' r := by
      intro m' hsame hptr
      have hcontent' : m'.content = r.content := by
        unfold Medium.content at hcontent ⊢
        rw [hsame, hcontent]
      refine ⟨h.size, h.position, h.inside, h.mode, h.append, ?_, ?_, ?_, fun hmode => ⟨(h.reading hmode).1, hcontent'⟩⟩
      · rw [hsame, hfile]
        exact some_ne_none _
      · intro hcached'
        exact absurd hcached' (by simp)
      · intro _
        refine ⟨?_, fun hsound => ⟨hcontent', hptr hsound⟩⟩
        change m'.content.take file.size = r.content
        rw [hcontent', h.size, take_length]
    have hinside : file.position ≤ m₁.content.length := by
      rw [hcontent, h.position]
      exact h.inside
    apply Keeps.ask
    intro answer m₂ hanswer
    rcases careful_lseek hanswer with ⟨rfl, hsound, hat⟩ | ⟨herror, hfails, hstrict, hspoiled, hptr⟩
    · obtain rfl := hat hinside
      exact ⟨hspilled _ rfl fun _ => rfl, rfl, hsound⟩
    · rw [if_pos herror]
      refine ⟨hspilled m₂ hspoiled.file ?_, hfails, hstrict⟩
      intro hsound
      rcases hptr rfl hposition with haborted | hat
      · exact absurd hsound (by rw [haborted]; decide)
      · rw [hspoiled.sound hsound]
        exact hat

theorem le_grownCapacity (required : Nat) (hrequired : required ≤ fileCacheLimit) (allocated : Nat)
    (hallocated : 0 < allocated) : required ≤ grownCapacity required hrequired allocated hallocated := by
  fun_induction grownCapacity required hrequired allocated hallocated with
  | case1 allocated hallocated hless hlarge ih => exact ih
  | case2 allocated hallocated hless hsmall ih => exact ih
  | case3 allocated hallocated henough => omega

theorem Represents.grown (h : Represents file m r) (hcached : file.cached = true) {block : Bytes}
    (hsize : file.size ≤ block.length) (hblock : block.take file.size = r.content) :
    Represents { file with contents := block, allocated := block.length } m r where
  size := h.size
  position := h.position
  inside := h.inside
  mode := h.mode
  append := h.append
  present := h.present
  cache := fun _ => ⟨rfl, hsize, hblock, (h.cache hcached).2.2.2⟩
  direct := fun hdirect => absurd hcached (by rw [hdirect]; decide)
  reading := h.reading

theorem ensureFileCapacity_keeps (h : Represents file m r) (hcached : file.cached = true) {required : Nat}
    (hrequired : required ≤ fileCacheLimit) :
    Keeps fails position strict (ensureFileCapacity file required) m fun result m' =>
      m' = m ∧
        match result with
        | .ok file' => Represents file' m r ∧ file'.cached = true ∧ required ≤ file'.contents.length
        | .error _ => fails ∧ ¬ strict := by
  obtain ⟨hlength, hsize, hcontents, -⟩ := h.cache hcached
  unfold ensureFileCapacity
  by_cases henough : required ≤ file.allocated
  · rw [if_pos henough]
    exact ⟨rfl, h, hcached, by omega⟩
  rw [if_neg henough, dif_neg (by omega)]
  generalize hcapacity : (if hallocated : file.allocated = 0 then grownCapacity required _ 1024 _
    else grownCapacity required _ file.allocated _) = capacity
  have hlarge : required ≤ capacity := by
    rw [← hcapacity]
    split <;> exact le_grownCapacity _ _ _ _
  by_cases hempty : file.contents = []
  · rw [if_pos hempty]
    apply Keeps.ask
    intro answer m₁ hanswer
    obtain ⟨rfl, ⟨block, rfl, rfl⟩ | ⟨rfl, hfails, hstrict⟩⟩ := careful_malloc hanswer
    · have hnone : file.size = 0 := by
        rw [hempty, length_nil] at hlength
        omega
      refine ⟨rfl, h.grown hcached (by omega) ?_, hcached, hlarge⟩
      rw [hnone, take_zero, ← hcontents, hempty, take_nil]
    · exact ⟨rfl, hfails, hstrict⟩
  · rw [if_neg hempty]
    apply Keeps.ask
    intro answer m₁ hanswer
    obtain ⟨rfl, ⟨block, rfl, rfl, hprefix⟩ | ⟨rfl, hfails, hstrict⟩⟩ := careful_realloc hanswer
    · refine ⟨rfl, h.grown hcached (by omega) ?_, hcached, hlarge⟩
      have hall : file.contents.take block.length = file.contents := take_of_length_le (by omega)
      rw [hall] at hprefix
      rw [← hcontents, ← hprefix, take_take, Nat.min_eq_left (by omega)]
    · exact ⟨rfl, hfails, hstrict⟩

/-! ### Writing -/

/-- Bytes are written at the position. -/
def RefFile.put (r : RefFile) (bytes : Bytes) : RefFile :=
  { r with content := overwrite r.content r.position bytes, position := r.position + bytes.length }

theorem RefFile.length_put (hinside : r.position ≤ r.content.length) (bytes : Bytes) :
    (r.put bytes).content.length = max r.content.length (r.position + bytes.length) := length_overwrite hinside

theorem size_written (file : CircleFile) (count : Nat) :
    (if file.position + count > file.size then file.position + count else file.size) =
      max file.size (file.position + count) := by
  split <;> omega

theorem Represents.written_cached (h : Represents file m r) (hcached : file.cached = true) (hmode : r.mode ≠ .rdonly)
    (hcapacity : file.position + bytes.length ≤ file.contents.length) :
    ∃ file', (written { file with contents := overwrite file.contents file.position bytes } bytes.length).2 =
      some file' ∧ Represents file' m (r.put bytes) := by
  obtain ⟨hlength, hsize, hcontents, -⟩ := h.cache hcached
  have hposition : file.position ≤ file.size := by
    rw [h.position, h.size]
    exact h.inside
  have hput := r.length_put h.inside bytes
  have hmax := size_written file bytes.length
  have hblock : (overwrite file.contents file.position bytes).length = file.contents.length := by
    rw [length_overwrite (by omega)]
    omega
  refine ⟨_, rfl, ?_, ?_, ?_, h.mode, h.append, h.present, ?_, ?_, fun hreading => absurd hreading hmode⟩
  · dsimp only
    rw [hmax, hput, h.size, h.position]
  · exact congrArg (· + bytes.length) h.position
  · rw [hput]
    exact Nat.le_max_right _ _
  · intro _
    dsimp only
    rw [hblock, hmax]
    refine ⟨hlength, by omega, ?_, fun hclean => absurd hclean (by simp)⟩
    rw [take_overwrite hposition (by omega), hcontents, h.position]
    rfl
  · intro hdirect
    exact absurd hcached (by
      change file.cached = false at hdirect
      rw [hdirect]
      decide)

theorem Represents.written_direct (h : Represents file m r) (hdirect : file.cached = false) (hmode : r.mode ≠ .rdonly)
    (hsound : m.aborted = false) (bytes : Bytes) :
    ∃ file', (written file bytes.length).2 = some file' ∧ Represents file' (m.stored bytes) (r.put bytes) := by
  obtain ⟨hcontent, hptr⟩ := (h.direct hdirect).2 hsound
  have hput := r.length_put h.inside bytes
  have hmax := size_written file bytes.length
  have hstored : (m.stored bytes).content = (r.put bytes).content := by
    rw [content_stored, hcontent, hptr, h.position]
    rfl
  refine ⟨_, rfl, ?_, ?_, ?_, h.mode, h.append, some_ne_none _, ?_, ?_, fun hreading => absurd hreading hmode⟩
  · dsimp only
    rw [hmax, hput, h.size, h.position]
  · exact congrArg (· + bytes.length) h.position
  · rw [hput]
    exact Nat.le_max_right _ _
  · intro hcached
    change file.cached = true at hcached
    exact absurd hcached (by rw [hdirect]; decide)
  · intro _
    refine ⟨?_, fun _ => ⟨hstored, ?_⟩⟩
    · dsimp only
      rw [hmax, hstored, h.size, h.position, ← hput, take_length]
    · change m.fptr + bytes.length = file.position + bytes.length
      rw [hptr]

/-- Bytes that were not written are not written, and the file stays; or some of them are written. -/
def Writes (fails strict : Prop) (r : RefFile) (bytes : Bytes) (result : Return × Option CircleFile) (m' : Medium) : Prop :=
  ∃ file', result.2 = some file' ∧
    ((result.1 = .failed ∧ Represents file' m' r ∧ (fails ∧ ¬ strict ∨ uintMax < r.position + bytes.length)) ∨
      ∃ count, 0 < count ∧ count ≤ bytes.length ∧ (count = bytes.length ∨ fails) ∧ result.1 = .value count ∧
        Represents file' m' (r.put (bytes.take count)))

theorem writeAt_direct (h : Represents file m r) (hdirect : file.cached = false) (hmode : r.mode ≠ .rdonly)
    (hposition : position ≠ none) (hbytes : bytes ≠ []) :
    Keeps fails position strict (do
      let (result, count) ← Program.perform (S := signature) (.write .direct bytes)
      if result ≠ .ok then return (.failed, some file)
      if count = 0 then return (.failed, some file)
      return written file count) m (Writes fails strict r bytes) := by
  have hpos := length_pos_iff.2 hbytes
  apply Keeps.ask
  intro answer m₁ hanswer
  obtain ⟨result, count⟩ := answer
  dsimp only
  rcases careful_write hanswer with ⟨hok, hsound, hcount, hfull, rfl, hshort⟩ | ⟨herror, hfails, hstrict, hspoiled⟩
  · subst hok
    by_cases hzero : count = 0
    · rw [if_pos hzero]
      subst hzero
      refine ⟨file, rfl, .inl ⟨rfl, ?_, .inl ⟨hfull.resolve_left (by omega), hshort.resolve_left (by omega) rfl⟩⟩⟩
      rw [take_zero, stored_nil h.present]
      exact h
    · rw [if_neg hzero]
      have htake : (bytes.take count).length = count := by
        rw [length_take]
        omega
      obtain ⟨file', hfile', hrepresents⟩ := h.written_direct hdirect hmode hsound (bytes.take count)
      rw [htake] at hfile'
      exact ⟨file', hfile', .inr ⟨count, by omega, hcount, hfull, rfl, hrepresents⟩⟩
  · rw [if_pos herror]
    refine ⟨file, rfl, .inl ⟨rfl, ?_, .inl ⟨hfails, hstrict⟩⟩⟩
    rcases hspoiled with rfl | ⟨hsound, haborted, hpresent, hkept⟩
    · exact h
    · have hcontent := ((h.direct hdirect).2 hsound).1
      refine ⟨h.size, h.position, h.inside, h.mode, h.append, hpresent, ?_, ?_, fun hreading => absurd hreading hmode⟩
      · intro hcached
        exact absurd hcached (by rw [hdirect]; decide)
      · intro _
        refine ⟨?_, fun hsound' => absurd hsound' (by rw [haborted]; decide)⟩
        rw [h.size, ← hcontent]
        exact hkept rfl hposition

theorem writeAt_keeps (h : Represents file m r) (hmode : r.mode ≠ .rdonly) (hposition : position ≠ none)
    (hbytes : bytes ≠ []) : Keeps fails position strict (writeAt file bytes) m (Writes fails strict r bytes) := by
  unfold writeAt
  by_cases hfits : bytes.length > uintMax - file.position
  · rw [if_pos hfits]
    have hposition := h.position
    exact ⟨file, rfl, .inl ⟨rfl, h, .inr (by omega)⟩⟩
  rw [if_neg hfits]
  by_cases hspill : file.cached = true ∧ file.position + bytes.length > fileCacheLimit
  · rw [if_pos hspill]
    apply (spillCache_keeps h hspill.1 hposition).bind
    intro result m₁ hresult
    obtain ⟨spillError, file₁⟩ := result
    obtain ⟨hrepresents, hspilled⟩ := hresult
    cases spillError with
    | some errno =>
      dsimp only
      exact ⟨file₁, rfl, .inl ⟨rfl, hrepresents, .inl hspilled⟩⟩
    | none =>
      obtain ⟨hdirect, -⟩ := hspilled
      dsimp only at hrepresents hdirect ⊢
      rw [if_neg (by simp), if_neg (by simp [hdirect])]
      exact writeAt_direct hrepresents hdirect hmode hposition hbytes
  · rw [if_neg hspill, pure_bind]
    dsimp only
    by_cases hcached : file.cached = true
    · rw [if_pos hcached]
      have hsmall : file.position + bytes.length ≤ fileCacheLimit :=
        Nat.le_of_not_lt fun hlarge => hspill ⟨hcached, hlarge⟩
      apply (ensureFileCapacity_keeps h hcached hsmall).bind
      intro result m₁ hresult
      obtain ⟨rfl, hresult⟩ := hresult
      cases result with
      | error errno => exact ⟨file, rfl, .inl ⟨rfl, h, .inl hresult⟩⟩
      | ok file₁ =>
        obtain ⟨hrepresents, hcached₁, hcapacity⟩ := hresult
        have hsame : file₁.position = file.position := by rw [hrepresents.position, h.position]
        obtain ⟨file', hfile', hwritten⟩ :=
          hrepresents.written_cached hcached₁ hmode (by rw [hsame]; exact hcapacity)
        refine ⟨file', hfile', .inr ⟨bytes.length, length_pos_iff.2 hbytes, Nat.le_refl _, .inl rfl, rfl, ?_⟩⟩
        rw [take_length]
        exact hwritten
    · rw [if_neg hcached]
      exact writeAt_direct h (by simpa using hcached) hmode hposition hbytes

end

end Bmx.NewIo
