import Bmx.NewIo.CircleFileCalls

/-!
# Runs of calls on a descriptor

A descriptor on a card where nothing fails is a plain file. On a card where things fail, the calls that
return -1 have done nothing to the file, as long as the failures are harmless.
-/

namespace Bmx.NewIo

open Interaction FatFs Reference List

/-- Calls one after another, each where it is admitted. The card may be of another kind for each. -/
inductive Run (admits : Option CircleFile → Call → Prop) (card : Option CircleFile → Call → Env signature Medium) :
    Option CircleFile → Medium → List Call → List Return → Option CircleFile → Medium → Prop
  | done (d : Option CircleFile) (m : Medium) : Run admits card d m [] [] d m
  | call {d d' d'' : Option CircleFile} {m m' m'' : Medium} {call : Call} {calls : List Call} {value : Return}
      {returns : List Return} {events : List (Event signature)} (errno : Errno) (hadmits : admits d call)
      (hcall : Completes (card d call) (call.program errno d) m events (value, d') m')
      (hrest : Run admits card d' m' calls returns d'' m'') :
      Run admits card d m (call :: calls) (value :: returns) d'' m''

/-! ### Opening and closing -/

theorem represents_opened (flags : OpenFlags) (content : Bytes) :
    Represents
      { contents := []
        allocated := 0
        size := content.length
        position := if flags.append then content.length else 0
        mode := flags.accmode
        flags := flags
        writtenTo := false
        cached := false }
      { file := some content
        fptr := if fatfsOpenFlags flags = .openAppend then content.length else 0
        aborted := false }
      (RefFile.opened flags content) where
  size := rfl
  position := rfl
  inside := by
    change (if flags.append then content.length else 0) ≤ content.length
    split
    · exact Nat.le_refl _
    · exact Nat.zero_le _
  mode := rfl
  append := rfl
  present := Option.some_ne_none _
  cache := fun hcached => absurd hcached (by simp)
  direct := by
    intro _
    refine ⟨take_length, fun _ => ⟨rfl, ?_⟩⟩
    unfold fatfsOpenFlags
    by_cases happend : flags.append = true
    · rw [if_pos happend, if_pos rfl, if_pos happend]
    · rw [if_neg happend, if_neg happend, if_neg]
      intro hnever
      split at hnever
      · cases hnever
      · split at hnever
        · cases hnever
        · split at hnever <;> cases hnever
  reading := fun _ => ⟨rfl, rfl⟩

inductive Opens (fails : Prop) (flags : OpenFlags) (m : Medium) : Return × Option CircleFile → Medium → Prop
  | opened {content : Bytes} {file : CircleFile} {m' : Medium}
      (hopened : m.opened (fatfsOpenFlags flags) = some content)
      (h : Represents file m' (RefFile.opened flags content)) : Opens fails flags m (.descriptor, some file) m'
  | missing (hnone : m.opened (fatfsOpenFlags flags) = none) : Opens fails flags m (.failed, none) m
  | large {content : Bytes} {m' : Medium} (hopened : m.opened (fatfsOpenFlags flags) = some content)
      (hlarge : uintMax < content.length ∨
        fileCacheLimit < content.length ∧ flags.accmode = .wronly ∧ flags.trunc = true) :
      Opens fails flags m (.failed, none) m'
  | failed {m' : Medium} (hfails : fails) : Opens fails flags m (.failed, none) m'

section

variable {fails strict : Prop} {position : Option Nat} {m : Medium} {file : CircleFile} {r : RefFile}

theorem openDescriptor_keeps (flags : OpenFlags) (errno : Errno) :
    Keeps fails position strict (openDescriptor flags errno) m (Opens fails flags m) := by
  unfold openDescriptor
  apply Keeps.ask
  intro answer m₁ hanswer
  obtain ⟨result, fatfsSize⟩ := answer
  dsimp only
  rcases hanswer with hperforms | ⟨hfails, hfailed, -⟩
  swap
  · change result ≠ .ok at hfailed
    rw [if_pos hfailed]
    exact .failed hfails
  simp only [Medium.Performs] at hperforms
  cases hopened : m.opened (fatfsOpenFlags flags) with
  | none =>
    rw [hopened] at hperforms
    obtain ⟨hresult, rfl⟩ := hperforms
    rw [if_pos]
    · exact .missing hopened
    · rw [hresult]
      split <;> simp only [ne_eq, reduceCtorEq, not_false_eq_true]
  | some content =>
    rw [hopened] at hperforms
    obtain ⟨hanswer, rfl⟩ := hperforms
    cases hanswer
    rw [if_neg (by simp)]
    by_cases hlarge : content.length > uintMax
    · rw [if_pos hlarge]
      apply Keeps.ask
      intro closed m₂ hclosed
      exact .large hopened (.inl hlarge)
    rw [if_neg hlarge]
    have h := represents_opened flags content
    split
    · rename_i hcache
      by_cases hlimit : content.length > fileCacheLimit
      · have htruncated : flags.accmode = .wronly ∧ flags.trunc = true := by
          simp only [Bool.or_eq_true, decide_eq_true_eq] at hcache
          rcases hcache with hreadWrite | htruncated
          · exact absurd hreadWrite.2 (by omega)
          · exact htruncated
        unfold cacheFile
        rw [if_neg (by simp), if_pos hlimit, pure_bind]
        apply Keeps.ask
        intro closed m₂ hclosed
        exact .large hopened (.inr ⟨hlimit, htruncated⟩)
      · apply (cacheFile_keeps h rfl (Nat.le_of_not_lt hlimit) rfl errno).bind
        intro result m₂ hresult
        cases result with
        | error errno' =>
          apply Keeps.ask
          intro closed m₃ hclosed
          exact .failed hresult.1
        | ok file => exact .opened hopened hresult.1
    · exact .opened hopened h

end

/-! ### Where nothing fails -/

variable {m m' : Medium} {op : Op} {α : Type} {events : List (Event signature)} {flags : OpenFlags}
  {content : Bytes} {r : Reference} {value : Return} {d' d : Option CircleFile} {file : CircleFile} {call : Call}
  {errno : Errno} {calls : List Call} {returns : List Return}

theorem Medium.Performs.sound {answer : op.Answer} (h : m.Performs op answer m')
    (hsound : m.aborted = false) : m'.aborted = false := by
  cases op with
  | malloc | realloc | close =>
    first
      | rw [h.1]; exact hsound
      | rw [h.2]; exact hsound
  | «open» disposition =>
    unfold Medium.Performs at h
    dsimp only at h
    cases hopened : m.opened disposition with
    | none =>
      rw [hopened] at h
      rw [h.2]
      exact hsound
    | some content =>
      rw [hopened] at h
      rw [h.2]
  | lseek => exact h.2.2.1
  | read | write | truncate | sync =>
    rw [h.2.2]
    exact hsound

/-- The descriptor and the card are those of the reference. -/
def Agrees (d : Option CircleFile) (m : Medium) (r : Reference) : Prop :=
  m.aborted = false ∧
    match d, r.opened with
    | none, none => m.file = r.disk
    | some file, some opened => Represents file m opened
    | _, _ => False

namespace Reference

/-- Appending goes with no flag that says something else about the file at the path: an existing file is
neither to be new nor, unless it is empty, to be truncated, and a missing one that is appended to or
truncated is to be made. -/
def Consistent (r : Reference) : Call → Prop
  | .open flags => r.opened = none →
      match r.disk with
      | none => flags.append = true ∨ flags.trunc = true → flags.creat = true
      | some content => flags.append = true →
          ¬ (flags.creat = true ∧ flags.excl = true) ∧ (flags.trunc = true → content = [])
  | _ => True

def run : Reference → List Call → List Return × Reference
  | r, [] => ([], r)
  | r, call :: calls => ((r.step call).1 :: ((r.step call).2.run calls).1, ((r.step call).2.run calls).2)

end Reference

theorem Represents.fits {r : RefFile} (h : Represents file m r)
    (hsmall : (r.step call).2.content.length ≤ uintMax) : call.Fits file := by
  cases call with
  | write ptr len =>
    intro hmode happend _
    rw [h.mode] at hmode
    rw [h.append] at happend
    rw [h.size]
    by_cases hnegative : len < 0
    · have hstep : r.step (.write ptr len) = (.failed, r) := if_pos (.inl hnegative)
      rw [hstep] at hsmall
      dsimp only at hsmall
      omega
    have hvalid : ¬ (len < 0 ∨ r.mode = .rdonly) := not_or.2 ⟨hnegative, hmode⟩
    by_cases hzero : len = 0
    · have hstep : r.step (.write ptr len) = (.value 0, r) := (if_neg hvalid).trans (if_pos hzero)
      rw [hstep] at hsmall
      dsimp only at hsmall
      omega
    · have hstep : r.step (.write ptr len) = (.value len.toNat, r.stored (bytesAt ptr len.toNat)) :=
        (if_neg hvalid).trans (if_neg hzero)
      have hend : r.atEnd = { r with position := r.content.length } := if_pos happend
      rw [hstep, RefFile.stored_eq, hend] at hsmall
      have hlength := RefFile.length_put (r := { r with position := r.content.length }) (Nat.le_refl _)
        (bytesAt ptr len.toNat)
      rw [length_bytesAt] at hlength
      dsimp only at hsmall hlength
      omega
  | _ => trivial

/-- A card and a heap that do what they are asked for. -/
def workingCard : Handler signature Medium
  | .malloc size, m => (some (List.replicate size 0), m)
  | .realloc block size, m => (some (block.take size ++ List.replicate (size - block.length) 0), m)
  | .open disposition, m =>
    match m.opened disposition with
    | some content => ((.ok, content.length),
        { file := some content
          fptr := if disposition = .openAppend then content.length else 0
          aborted := false })
    | none => ((if disposition = .createNew then .exist else .noFile, 0), m)
  | .close, m => (.ok, m)
  | .lseek _ offset, m => (.ok, { m with fptr := offset })
  | .read _ count, m => ((.ok, m.available count), { m with fptr := m.fptr + (m.available count).length })
  | .write _ bytes, m => ((.ok, bytes.length), m.stored bytes)
  | .truncate, m => (.ok, { m with file := some (m.content.take m.fptr) })
  | .sync, m => (.ok, m)

theorem workingCard_performs (hsound : m.aborted = false) (op : Op) :
    m.Performs op (workingCard op m).1 (workingCard op m).2 := by
  cases op with
  | malloc size => exact ⟨rfl, _, rfl, length_replicate⟩
  | realloc block size =>
    refine ⟨rfl, _, rfl, ?_, ?_⟩
    · rw [length_append, length_take, length_replicate]
      omega
    · rw [take_append, take_take, length_take, take_replicate]
      rcases Nat.le_total block.length size with hfits | hfits
      · have hnone : min (block.length - min size block.length) (size - block.length) = 0 := by omega
        rw [hnone, replicate_zero, append_nil, Nat.min_eq_left hfits, take_length, take_of_length_le hfits]
      · have hnone : min (block.length - min size block.length) (size - block.length) = 0 := by omega
        rw [hnone, replicate_zero, append_nil, Nat.min_eq_right hfits]
  | «open» disposition =>
    unfold workingCard Medium.Performs
    dsimp only
    cases hopened : m.opened disposition with
    | none => exact ⟨rfl, rfl⟩
    | some content => exact ⟨rfl, rfl⟩
  | close => exact ⟨rfl, rfl⟩
  | lseek site offset => exact ⟨hsound, rfl, hsound, fun _ => rfl⟩
  | read | write | truncate | sync => exact ⟨hsound, rfl, rfl⟩

/-- A card on which only harmless things fail in a call on an open descriptor. -/
def harmlessCard : Option CircleFile → Call → Env signature Medium
  | some file, call => careful True (some file.position) (call.Overtakes file)
  | none, _ => faulty

/-- The calls between an open and a close, with room for what is appended. -/
def Admitted : Option CircleFile → Call → Prop
  | some file, call => call ≠ .close ∧ call.Fits file
  | none, _ => False

inductive RefFile.Traces : RefFile → List Call → List Return → RefFile → Prop
  | done (r : RefFile) : Traces r [] [] r
  | call {r r' r'' : RefFile} {call : Call} {calls : List Call} {value : Return} {returns : List Return}
      (hfollows : r.Follows call value r') (hrest : Traces r' calls returns r'') :
      Traces r (call :: calls) (value :: returns) r''

theorem call_follows {r : RefFile}
     (h : Represents file m r) (hadmitted : Admitted (some file) call)
    (hcall : Completes (harmlessCard (some file) call) (call.program errno (some file)) m events (value, d) m') :
    ∃ file' r', d = some file' ∧ r.Follows call value r' ∧ Represents file' m' r' := by
  obtain ⟨file', r', hfile', hfollows, hrepresents, -⟩ :=
    Completes.holds hcall (call_keeps h hadmitted.1 hadmitted.2 errno)
  exact ⟨file', r', hfile', hfollows, hrepresents⟩

theorem Run.traces (hrun : Run Admitted harmlessCard d m calls returns d' m') {r : RefFile} (hd : d = some file)
    (h : Represents file m r) : ∃ file' r', d' = some file' ∧ r.Traces calls returns r' ∧ Represents file' m' r' := by
  induction hrun generalizing file r with
  | done d m => exact ⟨file, r, hd, .done r, h⟩
  | call errno hadmits hcall hrest ih =>
    subst hd
    obtain ⟨file₁, r₁, hfile₁, hfollows, h₁⟩ := call_follows h hadmits hcall
    obtain ⟨file', r', hfile', htraces, h'⟩ := ih hfile₁ h₁
    exact ⟨file', r', hfile', .call hfollows htraces, h'⟩

theorem opened_represents
    (hopen : Completes faulty (openDescriptor flags errno) m events (.descriptor, some file) m') :
    ∃ content, m.opened (fatfsOpenFlags flags) = some content ∧ Represents file m' (RefFile.opened flags content) := by
  have hcareful : ∀ op m (answer : signature.Answer op) m', faulty op m answer m' →
      careful True none False op m answer m' := by
    intro op m answer m' hanswer
    refine hanswer.imp_right fun hfailed => ⟨trivial, hfailed, fun _ => ⟨not_false, ?_⟩⟩
    intro before hbefore
    cases hbefore
  have hopens : Opens True flags m (.descriptor, some file) m' :=
    Completes.holds (Steps.env_mono hcareful hopen) (openDescriptor_keeps flags errno)
  cases hopens with
  | opened hopened h => exact ⟨_, hopened, h⟩

/-- A call that fails in a run with harmless failures leaves the position, the size and the file, and the
calls before and after it act on that file. -/
theorem Run.failed_keeps {flags : OpenFlags} {errno errno' : Errno} {m₀ m m₁ m₂ : Medium}
    {events events' : List (Event signature)} {file file₁ : CircleFile} {d : Option CircleFile} {calls : List Call}
    {returns : List Return} {call : Call} {value : Return}
    (hopen : Completes faulty (openDescriptor flags errno) m₀ events (.descriptor, some file) m)
    (hrun : Run Admitted harmlessCard (some file) m calls returns (some file₁) m₁)
    (hadmits : Admitted (some file₁) call)
    (hcall : Completes (harmlessCard (some file₁) call) (call.program errno' (some file₁)) m₁ events' (value, d) m₂) :
    ∃ content r₁ r₂ file₂,
      m₀.opened (fatfsOpenFlags flags) = some content ∧ (RefFile.opened flags content).Traces calls returns r₁ ∧
        Represents file₁ m₁ r₁ ∧ d = some file₂ ∧ r₁.Follows call value r₂ ∧ Represents file₂ m₂ r₂ ∧
          (value = .failed → file₂.position = file₁.position ∧ file₂.size = file₁.size ∧ r₂ = r₁) := by
  obtain ⟨content, hopened, h⟩ := opened_represents hopen
  obtain ⟨_, r₁, hfile₁, htraces, h₁⟩ := hrun.traces rfl h
  cases hfile₁
  obtain ⟨file₂, r₂, rfl, hfollows, h₂⟩ := call_follows h₁ hadmits hcall
  refine ⟨content, r₁, r₂, file₂, hopened, htraces, h₁, rfl, hfollows, h₂, ?_⟩
  rintro rfl
  have hsame : r₂ = r₁ := by
    cases hfollows
    rfl
  refine ⟨?_, ?_, hsame⟩
  · rw [h₂.position, h₁.position, hsame]
  · rw [h₂.size, h₁.size, hsame]

/-! ### A card that gives up -/

/-- A card whose writes, and seeks to an end, run out of time. -/
def slowCard : Handler signature Medium
  | .realloc _ _, m => (none, m)
  | .write _ _, m => ((.timeout, 0), m)
  | .lseek site offset, m =>
    if m.aborted ∨ site = .append then (.timeout, m) else workingCard (.lseek site offset) m
  | .read site count, m => if m.aborted then ((.timeout, []), m) else workingCard (.read site count) m
  | .truncate, m => if m.aborted then (.timeout, m) else workingCard .truncate m
  | .sync, m => if m.aborted then (.timeout, m) else workingCard .sync m
  | op, m => workingCard op m

theorem slowCard_careful (position : Option Nat) {strict : Prop} (hloose : ¬ strict) (op : Op) (m : Medium) :
    careful True position strict op m (slowCard op m).1 (slowCard op m).2 := by
  cases op with
  | malloc size => exact .inl ⟨rfl, _, rfl, length_replicate⟩
  | realloc block size => exact .inr ⟨trivial, ⟨rfl, rfl⟩, fun _ => ⟨hloose, fun _ _ => trivial⟩⟩
  | «open» disposition =>
    left
    unfold slowCard workingCard Medium.Performs
    dsimp only
    cases hopened : m.opened disposition with
    | none => exact ⟨rfl, rfl⟩
    | some content => exact ⟨rfl, rfl⟩
  | close => exact .inl ⟨rfl, rfl⟩
  | lseek site offset =>
    by_cases hrefused : m.aborted = true ∨ site = .append
    · have hanswer : slowCard (.lseek site offset) m = (.timeout, m) := if_pos hrefused
      rw [hanswer]
      refine .inr ⟨trivial, ⟨by simp, .inl rfl⟩, fun _ => ⟨hloose, fun before _ => ?_⟩⟩
      cases site with
      | spilled => exact .inl (hrefused.resolve_right (by simp))
      | _ => trivial
    · have hanswer : slowCard (.lseek site offset) m = workingCard (.lseek site offset) m := if_neg hrefused
      rw [hanswer]
      exact .inl (workingCard_performs (by simpa using (not_or.1 hrefused).1) _)
  | read site count =>
    by_cases haborted : m.aborted = true
    · have hanswer : slowCard (.read site count) m = ((.timeout, []), m) := if_pos haborted
      rw [hanswer]
      refine .inr ⟨trivial, .inl ⟨by simp, by simp, .inl rfl⟩, fun _ => ⟨hloose, fun before _ => ?_⟩⟩
      cases site with
      | caching => exact .inl haborted
      | _ => trivial
    · have hanswer : slowCard (.read site count) m = workingCard (.read site count) m := if_neg haborted
      rw [hanswer]
      exact .inl (workingCard_performs (by simpa using haborted) _)
  | write site bytes =>
    refine .inr ⟨trivial, .inl ⟨by simp [slowCard], .inl rfl⟩, fun _ => ⟨hloose, fun before _ => ?_⟩⟩
    cases site with
    | direct => exact take_length
    | _ => trivial
  | truncate =>
    by_cases haborted : m.aborted = true
    · have hanswer : slowCard .truncate m = (.timeout, m) := if_pos haborted
      rw [hanswer]
      exact .inr ⟨trivial, ⟨by simp, .inl rfl⟩, fun _ => ⟨hloose, fun _ _ => trivial⟩⟩
    · have hanswer : slowCard .truncate m = workingCard .truncate m := if_neg haborted
      rw [hanswer]
      exact .inl (workingCard_performs (by simpa using haborted) _)
  | sync =>
    by_cases haborted : m.aborted = true
    · have hanswer : slowCard .sync m = (.timeout, m) := if_pos haborted
      rw [hanswer]
      exact .inr ⟨trivial, ⟨by simp, .inl rfl⟩, fun _ => ⟨hloose, fun _ _ => trivial⟩⟩
    · have hanswer : slowCard .sync m = workingCard .sync m := if_neg haborted
      rw [hanswer]
      exact .inl (workingCard_performs (by simpa using haborted) _)

theorem slowCard_completes (p : Program signature α) (m : Medium) :
    Completes faulty p m (p.run slowCard m).1 (p.run slowCard m).2.1 (p.run slowCard m).2.2 :=
  Program.run_completes (fun op m => (slowCard_careful none not_false op m).imp_right fun h => h.2.1) p m

/-- A write to a descriptor that was opened to append, from the beginning of the file. -/
theorem slowAppend_moves :
    ∃ file file₁ file₂ m m₁ m₂ events events₁ events₂,
      Completes faulty (openDescriptor { accmode := .wronly, append := true } .zero) ⟨some [1, 2, 3, 4], 0, false⟩
          events (.descriptor, some file) m ∧
        Completes faulty ((Call.lseek 0 .set).program .zero (some file)) m events₁ (.value 0, some file₁) m₁ ∧
          Completes faulty ((Call.write (fun _ => 5) 1).program .zero (some file₁)) m₁ events₂ (.failed, some file₂) m₂ ∧
            file₁.position = 0 ∧ file₂.position = 4 := by
  refine ⟨_, _, _, _, _, _, _, _, _, slowCard_completes _ _, slowCard_completes _ _, slowCard_completes _ _, ?_, ?_⟩
  · rfl
  · rfl

/-- A write at a position, of which nothing is stored. -/
theorem slowWrite_keeps :
    ∃ r₁ r₂ file₁ file₂ m₁ m₂,
      (RefFile.opened { accmode := .wronly } [1, 2, 3, 4]).Traces [.lseek 2 .set] [.value 2] r₁ ∧
        Represents file₁ m₁ r₁ ∧ Represents file₂ m₂ r₂ ∧ file₂.position = file₁.position ∧ r₂ = r₁ := by
  have hopen := slowCard_completes (openDescriptor { accmode := .wronly } .zero) ⟨some [1, 2, 3, 4], 0, false⟩
  have hseek := Program.run_completes (slowCard_careful (some 0) not_false)
    ((Call.lseek 2 .set).program .zero (some ⟨[], 0, 4, 0, .wronly, { accmode := .wronly }, false, false⟩))
    ⟨some [1, 2, 3, 4], 0, false⟩
  have hloose : ¬ Call.Overtakes ⟨[], 0, 4, 2, .wronly, { accmode := .wronly }, false, false⟩ (.write (fun _ => 5) 1) :=
    fun hovertakes => absurd hovertakes.1 (by decide)
  have hwrite := Program.run_completes (slowCard_careful (some 2) hloose)
    ((Call.write (fun _ => 5) 1).program .zero (some ⟨[], 0, 4, 2, .wronly, { accmode := .wronly }, false, false⟩))
    ⟨some [1, 2, 3, 4], 2, false⟩
  have hrun : Run Admitted harmlessCard (some ⟨[], 0, 4, 0, .wronly, { accmode := .wronly }, false, false⟩)
      ⟨some [1, 2, 3, 4], 0, false⟩ [.lseek 2 .set] [.value 2]
      (some ⟨[], 0, 4, 2, .wronly, { accmode := .wronly }, false, false⟩) ⟨some [1, 2, 3, 4], 2, false⟩ :=
    .call .zero ⟨by simp, trivial⟩ hseek (.done _ _)
  have hroom : Call.Fits ⟨[], 0, 4, 2, .wronly, { accmode := .wronly }, false, false⟩ (.write (fun _ => 5) 1) :=
    fun _ happend => absurd happend (by decide)
  obtain ⟨content, r₁, r₂, file₂, hopened, htraces, h₁, -, -, h₂, hkept⟩ :=
    Run.failed_keeps hopen hrun ⟨by simp, hroom⟩ hwrite
  cases hopened
  obtain ⟨hposition, -, hsame⟩ := hkept rfl
  exact ⟨r₁, r₂, _, file₂, _, _, htraces, h₁, h₂, hposition, hsame⟩

end Bmx.NewIo
