import Bmx.NewIo.CircleFileSpec

/-!
# What a call does to the file

A call on an open descriptor does to the file it stands for what it says it did: nothing where it returns
-1. Where nothing fails it does what a plain file does.
-/

namespace Bmx.NewIo

open Interaction FatFs RefFile List

theorem CircleFile.with_position (file : CircleFile) {next : Nat} (h : file.position = next) :
    { file with position := next } = file := by
  subst h
  rfl

/-- The bytes behind a pointer. -/
def bytesAt (ptr : Nat → UInt8) (count : Nat) : Bytes := (List.range count).map ptr

/-- What a call that returned a value has done to an open file. -/
inductive RefFile.Follows (r : RefFile) : Call → Return → RefFile → Prop
  | failed (call : Call) : Follows r call .failed r
  | read (len : Int) (count : Nat) (hcount : (count : Int) ≤ len) (hinside : r.position + count ≤ r.content.length) :
      Follows r (.read len) (.bytes ((r.content.drop r.position).take count)) { r with position := r.position + count }
  | nothing (ptr : Nat → UInt8) : Follows r (.write ptr 0) (.value 0) r
  | write (ptr : Nat → UInt8) (len : Int) (count : Nat) (hpos : 0 < count) (hcount : (count : Int) ≤ len) :
      Follows r (.write ptr len) (.value count) (r.stored (bytesAt ptr count))
  | lseek (ptr : Int) (dir : Whence) (next : Nat)
      (hnext : nextPosition r.content.length r.position ptr dir = some (next : Int)) (hinside : next ≤ r.content.length) :
      Follows r (.lseek ptr dir) (.value next) { r with position := next }
  | fsync : Follows r .fsync (.value 0) r

section

variable {fails strict : Prop} {position : Option Nat} {m : Medium} {file : CircleFile} {r : RefFile}

/-- The call did what it says, and all of it where nothing fails. -/
def Explains (fails : Prop) (r : RefFile) (call : Call) (result : Return × Option CircleFile) (m' : Medium) : Prop :=
  ∃ file' r', result.2 = some file' ∧ r.Follows call result.1 r' ∧ Represents file' m' r' ∧
    (fails ∨ ((r.step call).2.content.length ≤ uintMax → r.step call = (result.1, r')))

variable {call : Call} {m' : Medium} {next count : Nat} {len : Int}

theorem Explains.refused (h : Represents file m r) (hstep : r.step call = (.failed, r)) :
    Explains fails r call (.failed, some file) m :=
  ⟨file, r, rfl, .failed call, h, .inr fun _ => hstep⟩

theorem Explains.failed {file' : CircleFile} (h : Represents file' m' r) (hfails : fails) (call : Call) :
    Explains fails r call (.failed, some file') m' :=
  ⟨file', r, rfl, .failed call, h, .inl hfails⟩

/-! ### Reading -/

theorem Represents.moved (h : Represents file m r) (hnext : next ≤ r.content.length)
    (hfile : m'.file = m.file) (hptr : file.cached = false → m'.aborted = false → m.aborted = false ∧ m'.fptr = next) :
    Represents { file with position := next } m' { r with position := next } := by
  have hcontent : m'.content = m.content := by
    unfold Medium.content
    rw [hfile]
  refine ⟨h.size, rfl, hnext, h.mode, h.append, ?_, ?_, ?_, ?_⟩
  · rw [hfile]
    exact h.present
  · rw [hcontent]
    exact h.cache
  · rw [hcontent]
    intro hdirect
    refine ⟨(h.direct hdirect).1, fun hsound => ?_⟩
    obtain ⟨hbefore, hat⟩ := hptr hdirect hsound
    exact ⟨((h.direct hdirect).2 hbefore).1, hat⟩
  · rw [hcontent]
    exact h.reading

theorem Explains.read (h : Represents file m r) (hlen : ¬ len < 0) (hmode : file.mode ≠ .wronly)
    (hcount : count ≤ min len.toNat (r.content.length - r.position))
    (hfull : fails ∨ count = min len.toNat (r.content.length - r.position)) (hfile : m'.file = m.file)
    (hptr : file.cached = false → m'.aborted = false → m.aborted = false ∧ m'.fptr = r.position + count) :
    Explains fails r (.read len)
      (.bytes ((r.content.drop r.position).take count), some { file with position := file.position + count }) m' := by
  have hinside := h.inside
  have hmoved := h.moved (show r.position + count ≤ r.content.length by omega) hfile hptr
  rw [← h.position] at hmoved
  refine ⟨_, _, rfl, ?_, hmoved, hfull.imp_right ?_⟩
  · rw [h.position]
    exact .read len count (by omega) (by omega)
  · rintro hall -
    have htake : (r.content.drop r.position).take len.toNat = (r.content.drop r.position).take count := by
      rw [take_eq_take_iff, length_drop, hall]
      omega
    have hlength : ((r.content.drop r.position).take count).length = count := by
      rw [length_take, length_drop]
      omega
    have hstep : r.step (.read len) = (.bytes ((r.content.drop r.position).take len.toNat),
        { r with position := r.position + ((r.content.drop r.position).take len.toNat).length }) :=
      if_neg (by
        rw [← h.mode]
        exact not_or.2 ⟨hlen, hmode⟩)
    rw [hstep, htake, hlength, h.position]

theorem readDescriptor_keeps (h : Represents file m r) (len : Int) :
    Keeps fails position strict (readDescriptor file len) m (Explains fails r (.read len)) := by
  have hinside := h.inside
  unfold readDescriptor
  by_cases hnegative : len < 0
  · rw [if_pos hnegative]
    exact Explains.refused h (if_pos (.inl hnegative))
  rw [if_neg hnegative]
  by_cases hmode : file.mode = .wronly
  · rw [if_pos hmode]
    exact Explains.refused h (if_pos (.inr (h.mode.symm.trans hmode)))
  rw [if_neg hmode]
  by_cases hdirect : file.cached = false
  · rw [if_pos hdirect]
    apply Keeps.ask
    intro answer m₁ hanswer
    obtain ⟨result, bytes⟩ := answer
    dsimp only
    rcases careful_read hanswer with ⟨hok, hsound, most, hmost, hfull, hbytes, rfl, -⟩ | ⟨herror, -, hfails, -, hspoiled, -⟩
    · subst hok
      subst hbytes
      have hlength : (m.available most).length = min most (r.content.length - r.position) := by
        rw [h.available hdirect hsound, length_take, length_drop]
      have hcut : m.available most = (r.content.drop r.position).take (m.available most).length := by
        rw [hlength, h.available hdirect hsound, take_eq_take_iff, length_drop]
        omega
      have hread : Explains fails r (.read len) (.bytes ((r.content.drop r.position).take (m.available most).length),
          some { file with position := file.position + (m.available most).length })
          { m with fptr := m.fptr + (m.available most).length } := by
        apply Explains.read h hnegative hmode (by omega)
        · rcases hfull with hall | hfails
          · right
            omega
          · exact .inl hfails
        · rfl
        · intro _ _
          refine ⟨hsound, ?_⟩
          rw [← h.position, ← ((h.direct hdirect).2 hsound).2]
      rw [← hcut] at hread
      exact hread
    · rw [if_pos herror]
      exact Explains.failed (h.spoiled hspoiled) hfails _
  · have hcached : file.cached = true := by simpa using hdirect
    obtain ⟨hblock, hsize, hcontents, -⟩ := h.cache hcached
    rw [if_neg hdirect, if_pos (by rw [h.position, h.size]; exact hinside)]
    dsimp only
    have hmax : (if len.toNat > file.size - file.position then file.size - file.position else len.toNat) =
        min len.toNat (r.content.length - r.position) := by
      rw [h.size, h.position]
      split <;> omega
    have hbytes : (file.contents.drop file.position).take (min len.toNat (r.content.length - r.position)) =
        (r.content.drop r.position).take (min len.toNat (r.content.length - r.position)) := by
      have hdrop : r.content.drop r.position = (file.contents.drop r.position).take (file.size - r.position) := by
        rw [← hcontents, drop_take]
      rw [hdrop, take_take, h.position, h.size]
      congr 1
      omega
    rw [hmax, hbytes]
    exact Explains.read h hnegative hmode (Nat.le_refl _) (.inr rfl) rfl fun hdirect' => absurd hdirect' hdirect

/-! ### Writing -/

theorem length_bytesAt (ptr : Nat → UInt8) (count : Nat) : (bytesAt ptr count).length = count := by
  unfold bytesAt
  rw [length_map, length_range]

theorem take_bytesAt (ptr : Nat → UInt8) {most : Nat} (h : most ≤ count) :
    (bytesAt ptr count).take most = bytesAt ptr most := by
  unfold bytesAt
  rw [← map_take, take_range, Nat.min_eq_left h]

/-- The file where an append writes. -/
def RefFile.atEnd (r : RefFile) : RefFile := if r.append then { r with position := r.content.length } else r

theorem RefFile.stored_eq (r : RefFile) (bytes : Bytes) : r.stored bytes = r.atEnd.put bytes := by
  unfold stored atEnd put
  by_cases happend : r.append = true
  · rw [if_pos happend, if_pos happend]
  · rw [if_neg happend, if_neg happend]

theorem Explains.writes {ptr : Nat → UInt8} (hlen : 0 < len) (hmode : r.mode ≠ .rdonly)
    (hback : fails ∧ ¬ strict → r.atEnd = r)
    (hfits : r.atEnd ≠ r → r.content.length + len.toNat ≤ uintMax) {result : Return × Option CircleFile}
    (hwrites : Writes fails strict r.atEnd (bytesAt ptr len.toNat) result m') :
    Explains fails r (.write ptr len) result m' := by
  have hstep : r.step (.write ptr len) = (.value len.toNat, r.stored (bytesAt ptr len.toNat)) := by
    have hvalid : ¬ (len < 0 ∨ r.mode = .rdonly) := not_or.2 ⟨by omega, hmode⟩
    unfold step
    dsimp only
    rw [if_neg hvalid, if_neg (by omega)]
    rfl
  obtain ⟨value, _⟩ := result
  obtain ⟨file', rfl, ⟨rfl, hrepresents, hcause⟩ | ⟨count, hpos, hcount, hfull, rfl, hrepresents⟩⟩ := hwrites
  · have hposition : r.atEnd ≠ r → r.atEnd.position = r.content.length := by
      intro hmoved
      unfold atEnd at hmoved ⊢
      split
      · rfl
      · rename_i hplain
        exact absurd (if_neg hplain) hmoved
    have hsame : r.atEnd = r := by
      by_contra hmoved
      rcases hcause with hfailed | hlarge
      · exact hmoved (hback hfailed)
      · rw [hposition hmoved, length_bytesAt] at hlarge
        exact absurd (hfits hmoved) (by omega)
    rw [hsame] at hrepresents hcause
    refine ⟨file', r, rfl, .failed _, hrepresents, ?_⟩
    rcases hcause with ⟨hfails, -⟩ | hlarge
    · exact .inl hfails
    · right
      intro hsmall
      rw [hstep, stored_eq, hsame, r.length_put (hsame ▸ hrepresents.inside)] at hsmall
      exact absurd hlarge (by omega)
  · rw [length_bytesAt] at hcount hfull
    rw [take_bytesAt ptr hcount, ← stored_eq] at hrepresents
    refine ⟨file', _, rfl, .write ptr len count hpos (by omega), hrepresents, ?_⟩
    rcases hfull with rfl | hfails
    · exact .inr fun _ => hstep
    · exact .inl hfails

theorem writeDescriptor_keeps (h : Represents file m r) (ptr : Nat → UInt8) (len : Int) (hposition : position ≠ none)
    (hstrict : ¬ strict → file.flags.append = true → file.position = file.size)
    (hfits : file.mode ≠ .rdonly → file.flags.append = true → file.position ≠ file.size →
      file.size + len.toNat ≤ uintMax) :
    Keeps fails position strict (writeDescriptor file ptr len) m (Explains fails r (.write ptr len)) := by
  unfold writeDescriptor
  by_cases hnegative : len < 0
  · rw [if_pos hnegative]
    exact Explains.refused h (if_pos (.inl hnegative))
  rw [if_neg hnegative]
  by_cases hmode : file.mode = .rdonly
  · rw [if_pos hmode]
    exact Explains.refused h (if_pos (.inr (h.mode.symm.trans hmode)))
  rw [if_neg hmode]
  have hwritable : r.mode ≠ .rdonly := by
    rw [← h.mode]
    exact hmode
  by_cases hzero : len = 0
  · subst hzero
    refine ⟨file, r, rfl, .nothing ptr, h, .inr fun _ => ?_⟩
    unfold step
    dsimp only
    rw [if_neg (not_or.2 ⟨by decide, hwritable⟩), if_pos rfl]
  rw [if_neg hzero]
  have hpos : 0 < len := by omega
  have hbytes : bytesAt ptr len.toNat ≠ [] := by
    intro hnone
    have hlength := length_bytesAt ptr len.toNat
    rw [hnone, length_nil] at hlength
    omega
  have hend : r.append = true → r.atEnd = { r with position := r.content.length } := fun happend => if_pos happend
  have hplain : r.append = false → r.atEnd = r := fun hnone => if_neg (by rw [hnone]; decide)
  have hback : fails ∧ ¬ strict → r.atEnd = r := by
    rintro ⟨-, hloose⟩
    by_cases happend : r.append = true
    · have hsame := hstrict hloose (h.append.trans happend)
      rw [hend happend, ← h.size, ← hsame, h.position]
    · exact hplain (by simpa using happend)
  have hroom : r.atEnd ≠ r → r.content.length + len.toNat ≤ uintMax := by
    intro hmoved
    by_cases happend : r.append = true
    · rw [← h.size]
      apply hfits hmode (h.append.trans happend)
      intro hsame
      apply hmoved
      rw [hend happend, ← h.size, ← hsame, h.position]
    · exact absurd (hplain (by simpa using happend)) hmoved
  have hwrite : ∀ {file₁ : CircleFile} {m₁ : Medium}, Represents file₁ m₁ r.atEnd →
      Keeps fails position strict (writeAt file₁ (bytesAt ptr len.toNat)) m₁ (Explains fails r (.write ptr len)) := by
    intro file₁ m₁ h₁
    have hmode₁ : r.atEnd.mode ≠ .rdonly := by
      unfold atEnd
      split <;> exact hwritable
    apply (writeAt_keeps h₁ hmode₁ hposition hbytes).mono
    intro result m₂ hwrites
    exact Explains.writes hpos hwritable hback hroom hwrites
  by_cases happend : file.flags.append = true
  · have happend' : r.append = true := h.append.symm.trans happend
    rw [if_pos happend]
    rw [hend happend'] at hwrite
    by_cases hdirect : file.cached = false
    · rw [if_pos hdirect]
      apply Keeps.ask
      intro answer m₁ hanswer
      rcases careful_lseek hanswer with ⟨rfl, hsound, hat⟩ | ⟨herror, hfails, hloose, hspoiled, -⟩
      · have hcontent := ((h.direct hdirect).2 hsound).1
        obtain rfl := hat (Nat.le_of_eq (by rw [hcontent, h.size]))
        have hmoved : Represents { file with position := r.content.length } { m with fptr := r.content.length }
            { r with position := r.content.length } := h.moved (Nat.le_refl _) rfl fun _ _ => ⟨hsound, rfl⟩
        rw [← h.size] at hmoved
        apply hwrite
        rw [← h.size]
        exact hmoved
      · rw [if_pos herror, file.with_position (hstrict hloose happend)]
        exact Explains.failed (h.spoiled hspoiled) hfails _
    · have hmoved : Represents { file with position := r.content.length } m { r with position := r.content.length } :=
        h.moved (Nat.le_refl _) rfl fun hdirect' => absurd hdirect' hdirect
      rw [← h.size] at hmoved
      rw [if_neg hdirect]
      apply hwrite
      rw [← h.size]
      exact hmoved
  · rw [if_neg happend]
    apply hwrite
    rw [hplain (by rw [← h.append]; simpa using happend)]
    exact h

/-! ### Seeking and flushing -/

theorem seekTo_keeps (h : Represents file m r) (hnext : next ≤ r.content.length) :
    Keeps fails position strict (seekTo file next) m fun result m' =>
      ∃ file', result.2 = some file' ∧
        ((result.1 = .failed ∧ fails ∧ Represents file' m' r) ∨
          (result.1 = .value next ∧ Represents file' m' { r with position := next })) := by
  unfold seekTo
  by_cases hdirect : file.cached = false
  · rw [if_pos hdirect]
    apply Keeps.ask
    intro answer m₁ hanswer
    rcases careful_lseek hanswer with ⟨rfl, hsound, hat⟩ | ⟨herror, hfails, -, hspoiled, -⟩
    · obtain rfl := hat (by rw [((h.direct hdirect).2 hsound).1]; exact hnext)
      exact ⟨_, rfl, .inr ⟨rfl, h.moved hnext rfl fun _ _ => ⟨hsound, rfl⟩⟩⟩
    · rw [if_pos herror]
      exact ⟨file, rfl, .inl ⟨rfl, hfails, h.spoiled hspoiled⟩⟩
  · rw [if_neg hdirect]
    exact ⟨_, rfl, .inr ⟨rfl, h.moved hnext rfl fun hdirect' => absurd hdirect' hdirect⟩⟩

theorem step_lseek (r : RefFile) (ptr : Int) (dir : Whence) :
    r.step (.lseek ptr dir) = match nextPosition r.content.length r.position ptr dir with
      | none => (.failed, r)
      | some next =>
        if next < 0 ∨ next > r.content.length then (.failed, r)
        else (.value next.toNat, { r with position := next.toNat }) := rfl

theorem lseekDescriptor_keeps (h : Represents file m r) (ptr : Int) (dir : Whence) (errno : Errno)
    (hposition : position = some file.position) :
    Keeps fails position strict (lseekDescriptor file ptr dir errno) m (Explains fails r (.lseek ptr dir)) := by
  have hstep := step_lseek r ptr dir
  unfold lseekDescriptor
  rw [h.size, h.position]
  cases hnext : nextPosition r.content.length r.position ptr dir with
  | none =>
    rw [hnext] at hstep
    exact Explains.refused h hstep
  | some next =>
    rw [hnext] at hstep
    dsimp only at hstep ⊢
    by_cases hinvalid : next < 0 ∨ next > r.content.length
    · rw [if_pos hinvalid]
      rw [if_pos hinvalid] at hstep
      exact Explains.refused h hstep
    rw [if_neg hinvalid]
    rw [if_neg hinvalid] at hstep
    have hinside : next.toNat ≤ r.content.length := by omega
    have hseek : ∀ {file₁ : CircleFile} {m₁ : Medium}, Represents file₁ m₁ r →
        Keeps fails position strict (seekTo file₁ next.toNat) m₁ (Explains fails r (.lseek ptr dir)) := by
      intro file₁ m₁ h₁
      apply (seekTo_keeps h₁ hinside).mono
      intro result m₂ hresult
      obtain ⟨value, _⟩ := result
      obtain ⟨file₂, rfl, ⟨rfl, hfails, h₂⟩ | ⟨rfl, h₂⟩⟩ := hresult
      · exact Explains.failed h₂ hfails _
      · refine ⟨file₂, _, rfl, .lseek ptr dir next.toNat ?_ hinside, h₂, .inr fun _ => hstep⟩
        rw [hnext]
        congr 1
        omega
    by_cases hcache : file.mode = .rdonly ∧ file.cached = false ∧ r.content.length ≤ fileCacheLimit
    · rw [if_pos hcache]
      have hreading := h.reading (h.mode.symm.trans hcache.1)
      apply (cacheFile_keeps h hcache.2.1 (by rw [h.size]; exact hcache.2.2) hreading.2 errno).bind
      intro result m₁ hresult
      cases result with
      | ok file₁ => exact hseek hresult.1
      | error errno' =>
        obtain ⟨hfails, -, h₁⟩ := hresult
        dsimp only
        by_cases hmemory : errno' ≠ .enomem
        · rw [if_pos hmemory]
          exact Explains.failed (h₁ hposition) hfails _
        · rw [if_neg hmemory]
          exact hseek (h₁ hposition)
    · rw [if_neg hcache]
      exact hseek h

theorem Represents.flushed (h : Represents file m r) (hfile : m'.file = some r.content)
    (hptr : file.cached = false → m' = m) : Represents { file with writtenTo := false } m' r := by
  have hcontent : m'.content = r.content := by
    unfold Medium.content
    rw [hfile]
    rfl
  refine ⟨h.size, h.position, h.inside, h.mode, h.append, ?_, ?_, ?_, fun _ => ⟨rfl, hcontent⟩⟩
  · rw [hfile]
    exact Option.some_ne_none _
  · intro hcached
    obtain ⟨hlength, hsize, hcontents, -⟩ := h.cache hcached
    exact ⟨hlength, hsize, hcontents, fun _ => hcontent⟩
  · intro hdirect
    rw [hptr hdirect]
    exact h.direct hdirect

/-- The file is flushed: it is on the card, and the descriptor stays. -/
theorem fsyncDescriptor_keeps (h : Represents file m r) :
    Keeps fails position strict (fsyncDescriptor file) m fun result m' =>
      Explains fails r .fsync result m' ∧ (¬ fails → m'.file = some r.content) := by
  unfold fsyncDescriptor
  by_cases hmode : file.mode = .rdonly
  · rw [if_pos hmode]
    have hreading : r.mode = .rdonly := h.mode.symm.trans hmode
    refine ⟨Explains.refused h (if_pos hreading), fun _ => ?_⟩
    rw [← (h.reading hreading).2]
    exact Medium.file_eq h.present
  rw [if_neg hmode]
  have hstep : r.step .fsync = (.value 0, r) := if_neg (by
    rw [← h.mode]
    exact hmode)
  have hdone : ∀ {m' : Medium}, m'.file = some r.content → (file.cached = false → m' = m) →
      Explains fails r .fsync (.value 0, some { file with writtenTo := false }) m' := fun hfile hptr =>
    ⟨_, r, rfl, .fsync, h.flushed hfile hptr, .inr fun _ => hstep⟩
  by_cases hcached : file.cached = true
  · rw [if_pos hcached]
    apply (flushCachedFile_keeps h hcached).bind
    intro result m₁ hresult
    cases result with
    | error errno =>
      obtain ⟨hfails, -, hdirty, hpresent⟩ := hresult
      exact ⟨Explains.failed (h.unflushed hcached hdirty hpresent) hfails _, fun hnone => absurd hfails hnone⟩
    | ok u =>
      exact ⟨hdone hresult.1 fun hdirect => absurd hcached (by rw [hdirect]; decide), fun _ => hresult.1⟩
  · have hdirect : file.cached = false := by simpa using hcached
    rw [if_neg hcached]
    apply Keeps.ask
    intro answer m₁ hanswer
    rcases careful_sync hanswer with ⟨rfl, hsound, rfl⟩ | ⟨herror, hfails, -, hspoiled⟩
    · have hfile : m₁.file = some r.content := by
        rw [← ((h.direct hdirect).2 hsound).1]
        exact Medium.file_eq h.present
      exact ⟨hdone hfile fun _ => rfl, fun _ => hfile⟩
    · rw [if_neg herror]
      exact ⟨Explains.failed (h.spoiled hspoiled) hfails _, fun hnone => absurd hfails hnone⟩

/-! ### Calls -/

/-- A write that goes to the end first. -/
def Call.Overtakes (file : CircleFile) : Call → Prop
  | .write _ _ => file.flags.append = true ∧ file.position ≠ file.size
  | _ => False

/-- A write that goes to the end first has room there. -/
def Call.Fits (file : CircleFile) : Call → Prop
  | .write _ len => file.mode ≠ .rdonly → file.flags.append = true → file.position ≠ file.size →
      file.size + len.toNat ≤ uintMax
  | _ => True

theorem call_keeps (h : Represents file m r) (hcall : call ≠ .close) (hfits : call.Fits file) (errno : Errno) :
    Keeps fails (some file.position) (call.Overtakes file) (call.program errno (some file)) m
      (Explains fails r call) := by
  cases call with
  | «open» flags => exact Explains.refused h rfl
  | close => exact absurd rfl hcall
  | read len => exact readDescriptor_keeps h len
  | write ptr len =>
    apply writeDescriptor_keeps h ptr len (Option.some_ne_none _) ?_ hfits
    intro hloose happend
    by_contra hmoved
    exact hloose ⟨happend, hmoved⟩
  | lseek ptr dir => exact lseekDescriptor_keeps h ptr dir errno rfl
  | fsync =>
    apply (fsyncDescriptor_keeps h).mono
    intro result m' hresult
    exact hresult.1

end

end Bmx.NewIo
