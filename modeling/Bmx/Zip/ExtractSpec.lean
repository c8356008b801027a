import Mathlib.Data.List.Induction
import Bmx.Zip.ArchiveInvariant
import Bmx.Zip.StreamSpec

/-!
# Extraction is transactional

Every entry point leaves both sinks closed, whatever the source, the inflater, the sinks and the
progress hooks answer. What it commits are entries of the archive, each of them only after its
bytes were checked.
-/

namespace Bmx.Zip

open Interaction Update Fallible Protocol ZipReader Milestone Transaction List Bool

variable {expected : ZipExpectedInventory} {permit : List Milestone → ZipEntry → Prop} {s : Protocol}

/-! ### The expected inventory -/

section Inventory

variable {σ : Type} {C : Contract zipSignature σ} {state : σ}

/-- A contract with nothing to say about progress reports. -/
def Indifferent (C : Contract zipSignature σ) : Prop := ∀ hook produced total state,
  C.pre (.progress hook produced total) state ∧
    ∀ answer state', C.post (.progress hook produced total) state answer state' → state' = state

theorem protocolContract_indifferent : Indifferent (protocolContract expected permit) :=
  fun _ _ _ _ => ⟨trivial, fun _ _ hpost => hpost⟩

/-- A stage that calls neither sink: what holds of its value on success. -/
def Keeps {α : Type} (C : Contract zipSignature σ) (p : ZipM α) (state : σ) (Q : α → Prop) : Prop :=
  Upholds C (fun a state' => state' = state ∧ Q a)
    (fun status state' => status ≠ .ok ∧ state' = state) p state

variable {α : Type} {total : Nat} {inventory : ZipInventory} {hasProgress : Bool}

theorem Keeps.bind {β : Type} {p : ZipM α} {f : α → ZipM β} {P : α → Prop} {Q : β → Prop}
    (hp : Keeps C p state P) (hf : ∀ a, P a → Keeps C (f a) state Q) : Keeps C (p >>= f) state Q := by
  refine Upholds.bind hp fun a state' ha => ?_
  obtain ⟨rfl, ha⟩ := ha
  exact hf a ha

theorem keeps_pure {value : α} {Q : α → Prop} (h : Q value) :
    Keeps C (pure value) state Q := ⟨rfl, h⟩

theorem keeps_require {condition : Prop} [Decidable condition] {status : ZipStatus} (hstatus : status ≠ .ok) :
    Keeps C (Fallible.require condition status) state fun _ => condition :=
  upholds_require.2 ⟨fun h => ⟨rfl, h⟩, fun _ => ⟨hstatus, rfl⟩⟩

theorem keeps_reportProgress (hC : Indifferent C) {present : Bool} {hook : ProgressHook} {produced : Nat} :
    Keeps C (reportProgress present hook produced total) state fun _ => True := by
  unfold reportProgress
  split
  · refine upholds_ask_bind.2 ⟨(hC _ _ _ state).1, fun answer state' hpost => ?_⟩
    obtain rfl : state' = state := (hC _ _ _ state).2 answer state' hpost
    exact upholds_require.2 ⟨fun _ => ⟨rfl, trivial⟩, fun _ => ⟨by decide, rfl⟩⟩
  · exact keeps_pure trivial

/-- An expected file is in the archive, with its size and compression. -/
def Present (inventory : ZipInventory) (wanted : ZipExpectedFile) : Prop :=
  ∃ entry, inventory.findFile wanted.path = some entry ∧ entry.size = wanted.size ∧
    entry.compression = wanted.compression

theorem keeps_checkExpectedFile {previous : List ZipExpectedFile} {wanted : ZipExpectedFile} :
    Keeps C (checkExpectedFile inventory previous wanted) state fun _ =>
      (∀ other ∈ previous, wanted.path ≠ other.path) ∧ Present inventory wanted := by
  unfold checkExpectedFile
  refine (keeps_require (by decide)).bind fun _ _ => ?_
  refine (keeps_require (by decide)).bind fun _ hfresh => ?_
  refine (keeps_require (by decide)).mono (fun _ s' h => ⟨h.1, hfresh, ?_⟩) fun _ _ h => h
  have hmatch := h.2
  unfold Present
  cases hfind : inventory.findFile wanted.path with
  | none =>
    rw [hfind] at hmatch
    cases hmatch
  | some entry =>
    rw [hfind, Option.any_some, and_eq_true, beq_iff_eq, beq_iff_eq] at hmatch
    exact ⟨entry, rfl, hmatch.1, hmatch.2⟩

theorem keeps_verifyFiles (hC : Indifferent C) (previous rest : List ZipExpectedFile) (requiresHash : Bool)
    (hprevious : previous.Pairwise fun a b => a.path ≠ b.path)
    (hpresent : ∀ file ∈ previous, Present inventory file) :
    Keeps C (verifyFiles inventory hasProgress total previous rest requiresHash) state fun _ =>
      (previous ++ rest).Pairwise (fun a b => a.path ≠ b.path) ∧
        ∀ file ∈ previous ++ rest, Present inventory file := by
  induction rest generalizing previous requiresHash with
  | nil => exact keeps_pure (by simpa only [append_nil] using ⟨hprevious, hpresent⟩)
  | cons wanted rest ih =>
    unfold verifyFiles
    refine keeps_checkExpectedFile.bind fun _ hwanted => ?_
    obtain ⟨hfresh, hhere⟩ := hwanted
    refine (keeps_reportProgress hC).bind fun _ _ => ?_
    have hnext : (previous ++ [wanted]).Pairwise fun a b => a.path ≠ b.path := by
      rw [pairwise_append]
      refine ⟨hprevious, pairwise_singleton _ _, fun a ha b hb => ?_⟩
      rw [mem_singleton.1 hb]
      exact (hfresh a ha).symm
    have hall : ∀ file ∈ previous ++ [wanted], Present inventory file := by
      intro file hfile
      rcases mem_append.1 hfile with hfile | hfile
      · exact hpresent file hfile
      · rw [mem_singleton.1 hfile]
        exact hhere
    have hrest := ih (previous ++ [wanted]) (requiresHash || wanted.sha256.isSome) hnext hall
    rwa [append_assoc] at hrest

theorem keeps_verifyDirectories (previous rest : List Bytes) (hprevious : previous.Nodup) :
    Keeps C (verifyDirectories inventory previous rest) state fun _ => (previous ++ rest).Nodup ∧
      ∀ path ∈ rest, ∃ entry ∈ inventory.entries, entry.isDirectory = true ∧ entry.path = path := by
  induction rest generalizing previous with
  | nil => exact keeps_pure ⟨by rwa [append_nil], fun _ h => absurd h not_mem_nil⟩
  | cons wanted rest ih =>
    unfold verifyDirectories
    refine (keeps_require (by decide)).bind fun _ _ => ?_
    refine (keeps_require (by decide)).bind fun _ hfresh => ?_
    refine (keeps_require (by decide)).bind fun _ hfound => ?_
    have hnext : (previous ++ [wanted]).Nodup := by
      refine nodup_append.2 ⟨hprevious, pairwise_singleton _ _, fun a ha b hb => ?_⟩
      rw [mem_singleton.1 hb]
      rintro rfl
      exact hfresh ha
    refine (ih _ hnext).mono (fun _ s' h => ⟨h.1, ?_, forall_mem_cons.2 ⟨?_, h.2.2⟩⟩) fun _ _ h => h
    · have hdistinct := h.2.1
      rwa [append_assoc] at hdistinct
    · obtain ⟨entry, hentry, hmatch⟩ := any_eq_true.1 hfound
      simp only [and_eq_true, beq_iff_eq] at hmatch
      exact ⟨entry, hentry, hmatch⟩

/-- The archive and the expected inventory name the same files and directories. -/
structure Matches (inventory : ZipInventory) (expected : ZipExpectedInventory) : Prop where
  fileCount : expected.files.length = inventory.fileCount
  directoryCount : expected.directories.length = inventory.directoryCount
  distinct : expected.files.Pairwise fun a b => a.path ≠ b.path
  files : ∀ file ∈ expected.files, Present inventory file
  directories : ∀ path ∈ expected.directories,
    ∃ entry ∈ inventory.entries, entry.isDirectory = true ∧ entry.path = path

theorem keeps_verifyExpectedInventory (hC : Indifferent C) {reader : ZipReader} :
    Keeps C (reader.verifyExpectedInventory expected hasProgress) state fun _ =>
      Matches reader.inventory expected ∧ reader.isOpen = true ∧ expected.directories.Nodup := by
  unfold verifyExpectedInventory
  refine (keeps_require (by decide)).bind fun _ hopen => ?_
  refine (keeps_require (by decide)).bind fun _ hcounts => ?_
  refine (keeps_verifyFiles hC [] _ _ .nil (fun _ h => absurd h not_mem_nil)).bind fun _ hfiles => ?_
  refine (keeps_verifyDirectories [] _ nodup_nil).bind fun _ hdirectories => ?_
  exact keeps_pure ⟨⟨hcounts.1, hcounts.2, hfiles.1, hfiles.2, hdirectories.2⟩, hopen, hdirectories.1⟩

end Inventory

/-! ### The entry points -/

/-- A reader that differs at most in what it knows of its contents. -/
def ZipReader.Same (reader other : ZipReader) : Prop :=
  other = { reader with validatedContents := other.validatedContents }

theorem ZipReader.Same.refl (reader : ZipReader) : reader.Same reader := rfl

theorem ZipReader.same_clear (reader : ZipReader) : reader.Same reader.clearValidatedContents := rfl

variable {reader other reader' : ZipReader} {path : Bytes} {entry : ZipEntry} {hasHash hasSink : Bool}
  {wanted : ZipExpectedFile}

theorem ZipReader.Same.trans {third : ZipReader} (h : reader.Same other)
    (h' : other.Same third) : reader.Same third := by
  unfold Same at h h' ⊢
  rw [h', h]

theorem ZipReader.Same.inventory (h : reader.Same other) :
    other.inventory = reader.inventory := by rw [h]

theorem findFile_eq_some {inventory : ZipInventory} (h : inventory.findFile path = some entry) :
    entry ∈ inventory.entries ∧ entry.isDirectory = false ∧ entry.path = path := by
  have hmatch := find?_some h
  simp only [and_eq_true, not_eq_true', beq_iff_eq] at hmatch
  exact ⟨mem_of_find?_eq_some h, hmatch⟩

/-- Both sinks are closed and these milestones are passed. -/
def Settled (log : List Milestone) (p : Protocol) : Prop := p.Idle ∧ p.log = log

/-- The milestones of entries that are committed one after the other. -/
def Milestone.ofEntries (entries : List ZipEntry) : List Milestone :=
  entries.flatMap fun entry => [.begun entry, .committed entry]

/-- The milestones of a pass over these entries. -/
def Sinks.passed (sinks : Sinks) (entries : List ZipEntry) : List Milestone :=
  if sinks.extract then ofEntries (fileEntries entries) else []

variable {sinks : Sinks} {log : List Milestone}

theorem Sinks.passed_cons {rest : List ZipEntry} {log' : List Milestone} (hfile : entry.isDirectory = false)
    (h : sinks.Passes entry .ok log log') : log' ++ sinks.passed rest = log ++ sinks.passed (entry :: rest) := by
  have htake : fileEntries (entry :: rest) = entry :: fileEntries rest := by
    simp [fileEntries, hfile]
  unfold Sinks.Passes at h
  cases hextract : sinks.extract <;>
    simp_all [Sinks.passed, ofEntries]

theorem streamFiles_holds
    (hpermit : sinks.extract = true → ∀ log entry, permit log entry) (entries : List ZipEntry)
    (h : Settled log s) :
    (reader.streamFiles sinks expected entries).Holds (protocolContract expected permit)
      (fun status s' => s'.Idle ∧ (status = .ok → s'.log = log ++ sinks.passed entries)) s := by
  induction entries generalizing log s with
  | nil => exact ⟨h.1, fun _ => by simp [h.2, Sinks.passed, fileEntries, ofEntries]⟩
  | cons entry rest ih =>
    unfold streamFiles
    split
    · rename_i hdirectory
      have hskip : sinks.passed (entry :: rest) = sinks.passed rest := by
        simp [Sinks.passed, fileEntries, hdirectory]
      rw [hskip]
      exact ih h
    · rename_i hfile
      refine (streamFile_holds h.1 fun hextract => hpermit hextract _ _).bind fun status s₁ h₁ => ?_
      obtain ⟨hidle, hpasses⟩ := h₁
      split
      · rename_i hok
        subst hok
        refine (ih ⟨hidle, rfl⟩).mono fun status' s₂ h₂ => ⟨h₂.1, fun hok => ?_⟩
        rw [h₂.2 hok, ← h.2]
        exact Sinks.passed_cons (eq_false_iff.2 hfile) hpasses
      · rename_i hfailed
        exact ⟨hidle, fun hok => absurd hok hfailed⟩

/-- A directory is committed with nothing written, which is what its entry declares. -/
theorem extractDirectories_holds (hpermit : ∀ log entry, permit log entry) (entries : List ZipEntry)
    (hdirectories : ∀ entry ∈ entries, entry.isDirectory = true → entry.size = 0 ∧ entry.crc32 = 0)
    (h : Settled log s) :
    (extractDirectories entries).Holds (protocolContract expected permit)
      (fun status s' => s'.Idle ∧
        (status = .ok → s'.log = log ++ ofEntries (directoryEntries entries))) s := by
  induction entries generalizing log s with
  | nil => exact ⟨h.1, fun _ => by simp [h.2, directoryEntries, ofEntries]⟩
  | cons entry rest ih =>
    have hrest : ∀ entry ∈ rest, entry.isDirectory = true → entry.size = 0 ∧ entry.crc32 = 0 :=
      fun other hother => hdirectories other (mem_cons_of_mem _ hother)
    unfold extractDirectories
    split
    · rename_i hdirectory
      have hzero := hdirectories entry mem_cons_self hdirectory
      have htake : ofEntries (directoryEntries (entry :: rest)) =
          [.begun entry, .committed entry] ++ ofEntries (directoryEntries rest) := by
        simp [directoryEntries, hdirectory, ofEntries]
      obtain ⟨⟨hsink, hhash⟩, hlog⟩ := h
      refine ⟨⟨hsink, hpermit _ _⟩, fun begun s₁ hpost => ?_⟩
      obtain rfl : s₁ = s.observe ⟨.sinkBegin entry, begun⟩ := hpost
      cases begun with
      | false => exact ⟨⟨hsink, hhash⟩, fun h => by cases h⟩
      | true =>
        refine ⟨⟨[], rfl, hzero.1.symm, hzero.2.symm, fun h => ?_⟩, fun committed s₂ hpost => ?_⟩
        · rw [hdirectory] at h
          cases h
        obtain rfl : s₂ = observe _ ⟨.sinkCommit entry, committed⟩ := hpost
        cases committed with
        | true =>
          have hsettled : Settled (log ++ [.begun entry, .committed entry])
              ((s.observe ⟨.sinkBegin entry, true⟩).observe ⟨.sinkCommit entry, true⟩) := by
            refine ⟨⟨rfl, hhash⟩, ?_⟩
            change s.log ++ [.begun entry] ++ [.committed entry] = _
            rw [hlog, append_assoc, singleton_append]
          refine (ih hrest hsettled).mono fun status s₃ h₃ => ?_
          refine ⟨h₃.1, fun hok => ?_⟩
          rw [h₃.2 hok, htake, append_assoc]
        | false =>
          refine ⟨.inr rfl, fun _ s₃ hpost => ?_⟩
          obtain rfl : s₃ = observe _ ⟨.sinkAbort entry, _⟩ := hpost
          exact ⟨⟨rfl, hhash⟩, fun h => by cases h⟩
    · rename_i hfile
      have hskip : directoryEntries (entry :: rest) = directoryEntries rest := by
        simp [directoryEntries, hfile]
      rw [hskip]
      exact ih hrest h

theorem validateContents_holds (hidle : s.Idle) :
    (reader.validateContents expected hasHash).Holds (protocolContract expected permit)
      (fun result s' => s'.Idle ∧ reader.Same result.2 ∧
        (result.1 = .ok → s'.log = s.log)) s := by
  unfold validateContents
  refine Program.Holds.bind (keeps_verifyExpectedInventory protocolContract_indifferent) fun verified s₁ h₁ => ?_
  cases verified with
  | error status =>
    obtain ⟨-, rfl⟩ := h₁
    exact ⟨hidle, reader.same_clear, fun _ => rfl⟩
  | ok requiresHash =>
    obtain ⟨rfl, -⟩ := h₁
    dsimp only
    split
    · exact ⟨hidle, reader.same_clear, fun _ => rfl⟩
    split
    · exact ⟨hidle, reader.same_clear, fun _ => rfl⟩
    refine (streamFiles_holds (fun h => by cases h) _ ⟨hidle, rfl⟩).bind fun status s₂ h₂ => ?_
    obtain ⟨hidle₂, hlog⟩ := h₂
    split
    · rename_i hok
      have hsame := hlog hok
      simp only [Sinks.passed, false_eq_true, if_false, append_nil] at hsame
      split
      · exact ⟨hidle₂, reader.same_clear, fun _ => hsame⟩
      split
      · exact ⟨hidle₂, rfl, fun _ => hsame⟩
      · exact ⟨hidle₂, reader.same_clear, fun _ => hsame⟩
    · rename_i hfailed
      exact ⟨hidle₂, reader.same_clear, fun hok => absurd hok hfailed⟩

/-- The end of a call that extracts one file. -/
def ExtractsOne (reader : ZipReader) (path : Bytes) (log : List Milestone)
    (result : ZipStatus × ZipReader) (s' : Protocol) : Prop :=
  s'.Idle ∧ reader.Same result.2 ∧
    (result.1 = .ok → ∃ entry, reader.inventory.findFile path = some entry ∧
      s'.log = log ++ [.begun entry, .committed entry]) ∧
    (result.1 ≠ .ok → s'.log = log ∨ ∃ entry, reader.inventory.findFile path = some entry ∧
      s'.log = log ++ [.begun entry])

theorem extractsOne_fail
    {status : ZipStatus} (hidle : s.Idle) (hsame : reader.Same reader') (hstatus : status ≠ .ok)
    (hlog : s.log = log) :
    (reader'.fail status).Holds (protocolContract expected permit) (ExtractsOne reader path log) s :=
  ⟨hidle, hsame.trans reader'.same_clear, fun h => absurd h hstatus, fun _ => .inl hlog⟩

/-- The pass that extracts: what it reports is what `streamFile` left. -/
theorem extractPass_holds (hidle : s.Idle) (hpermit : permit s.log entry)
    (hextract : sinks.extract = true) (hsame : reader.Same reader')
    (hentry : reader.inventory.findFile path = some entry)
    (hwanted : findExpectedFile expected path = some wanted) :
    (reader'.streamFile sinks entry wanted >>= fun status =>
      if status = .ok then pure (.ok, reader') else reader'.fail status).Holds
      (protocolContract expected permit) (ExtractsOne reader path s.log) s := by
  have hpath : findExpectedFile expected entry.path = some wanted := by
    rw [(findFile_eq_some hentry).2.2, hwanted]
  rw [← hpath]
  refine (streamFile_holds hidle fun _ => hpermit).bind fun status s₁ h₁ => ?_
  obtain ⟨hidle₁, hpasses⟩ := h₁
  unfold Sinks.Passes at hpasses
  rw [if_pos hextract] at hpasses
  split
  · rename_i hok
    rw [if_pos hok] at hpasses
    exact ⟨hidle₁, hsame, fun _ => ⟨entry, hentry, hpasses⟩, fun h => absurd rfl h⟩
  · rename_i hfailed
    rw [if_neg hfailed] at hpasses
    refine ⟨hidle₁, hsame.trans reader'.same_clear, fun h => absurd h hfailed, fun _ => ?_⟩
    exact hpasses.imp_right fun h => ⟨entry, hentry, h⟩

theorem extractEntry_holds {reuse : Bool} (hidle : s.Idle) (hpermit : permit s.log entry)
    (hsame : reader.Same reader') (hentry : reader.inventory.findFile path = some entry)
    (hwanted : findExpectedFile expected path = some wanted) :
    (reader'.extractEntry entry wanted hasHash reuse).Holds (protocolContract expected permit)
      (ExtractsOne reader path s.log) s := by
  have hpath : findExpectedFile expected entry.path = some wanted := by
    rw [(findFile_eq_some hentry).2.2, hwanted]
  unfold extractEntry
  split
  · exact extractPass_holds hidle hpermit rfl hsame hentry hwanted
  · have hahead : (reader'.streamFile ⟨hasHash, false, false⟩ entry
        (findExpectedFile expected entry.path)).Holds (protocolContract expected permit) _ s :=
      streamFile_holds hidle fun h => by cases h
    rw [hpath] at hahead
    refine hahead.bind fun status s₁ h₁ => ?_
    obtain ⟨hidle₁, hlog₁⟩ := h₁
    change s₁.log = s.log at hlog₁
    split
    · rw [← hlog₁] at hpermit ⊢
      exact extractPass_holds hidle₁ hpermit rfl hsame hentry hwanted
    · rename_i hfailed
      exact extractsOne_fail hidle₁ hsame hfailed hlog₁

theorem extractOne_holds (hidle : s.Idle)
    (hpermit : ∀ entry, reader.inventory.findFile path = some entry → permit s.log entry) :
    (reader.extractOne path expected hasSink hasHash).Holds (protocolContract expected permit)
      (ExtractsOne reader path s.log) s := by
  unfold extractOne
  split
  · exact ⟨hidle, .refl reader, (fun h => by cases h), fun _ => .inl rfl⟩
  refine Program.Holds.bind (keeps_verifyExpectedInventory protocolContract_indifferent) fun verified s₁ h₁ => ?_
  cases verified with
  | error status =>
    obtain ⟨hstatus, rfl⟩ := h₁
    exact extractsOne_fail hidle (.refl reader) hstatus rfl
  | ok requiresHash =>
    obtain ⟨rfl, -⟩ := h₁
    dsimp only
    generalize hreuse : reader.validatedContentsMatch expected = reuse
    have hsame : reader.Same (if reuse then reader else reader.clearValidatedContents) := by
      split
      · exact .refl reader
      · exact reader.same_clear
    rw [hsame.inventory]
    cases hentry : reader.inventory.findFile path with
    | none => exact extractsOne_fail hidle hsame (by decide) rfl
    | some entry =>
      cases hwanted : findExpectedFile expected path with
      | none => exact extractsOne_fail hidle hsame (by decide) rfl
      | some wanted =>
        dsimp only
        split
        · exact extractsOne_fail hidle hsame (by decide) rfl
        · exact extractEntry_holds hidle (hpermit entry hentry) hsame hentry hwanted

theorem extractOneSinglePass_holds {hasVerifyProgress hasStreamProgress : Bool} (hidle : s.Idle)
    (hpermit : ∀ entry, reader.inventory.findFile path = some entry → permit s.log entry) :
    (reader.extractOneSinglePass path expected hasSink hasVerifyProgress hasStreamProgress).Holds
      (protocolContract expected permit) (ExtractsOne reader path s.log) s := by
  unfold extractOneSinglePass
  split
  · exact ⟨hidle, .refl reader, (fun h => by cases h), fun _ => .inl rfl⟩
  refine Program.Holds.bind (keeps_verifyExpectedInventory protocolContract_indifferent) fun verified s₁ h₁ => ?_
  cases verified with
  | error status =>
    obtain ⟨hstatus, rfl⟩ := h₁
    exact extractsOne_fail hidle (.refl reader) hstatus rfl
  | ok requiresHash =>
    obtain ⟨rfl, -⟩ := h₁
    cases hentry : reader.inventory.findFile path with
    | none => exact extractsOne_fail hidle (.refl reader) (by decide) rfl
    | some entry =>
      cases hwanted : findExpectedFile expected path with
      | none => exact extractsOne_fail hidle (.refl reader) (by decide) rfl
      | some wanted =>
        exact extractPass_holds hidle (hpermit entry hentry) rfl (.refl reader) hentry hwanted

theorem extractAll_holds (hpermit : ∀ log entry, permit log entry) (hidle : s.Idle)
    (hdirectories : ∀ entry ∈ reader.inventory.entries, entry.isDirectory = true →
      entry.size = 0 ∧ entry.crc32 = 0) :
    (reader.extractAll expected hasSink hasHash).Holds (protocolContract expected permit)
      (fun result s' => s'.Idle ∧ reader.Same result.2 ∧
        (result.1 = .ok → s'.log = s.log ++ ofEntries (directoryEntries reader.inventory.entries) ++
          ofEntries (fileEntries reader.inventory.entries))) s := by
  unfold extractAll
  split
  · exact ⟨hidle, reader.same_clear, fun h => by cases h⟩
  refine (validateContents_holds hidle).bind fun result s₁ h₁ => ?_
  obtain ⟨hidle₁, hsame, hlog₁⟩ := h₁
  split
  · rename_i hvalid
    refine (extractDirectories_holds hpermit _ hdirectories ⟨hidle₁, hlog₁ hvalid⟩).bind
      fun status s₂ h₂ => ?_
    obtain ⟨hidle₂, hlog₂⟩ := h₂
    split
    · rename_i hok
      refine (streamFiles_holds (fun _ => hpermit) _ ⟨hidle₂, hlog₂ hok⟩).bind fun status s₃ h₃ => ?_
      obtain ⟨hidle₃, hlog₃⟩ := h₃
      split
      · rename_i hok₃
        exact ⟨hidle₃, hsame, fun _ => hlog₃ hok₃⟩
      · rename_i hfailed
        exact ⟨hidle₃, hsame.trans (same_clear _), fun h => absurd h hfailed⟩
    · rename_i hfailed
      exact ⟨hidle₂, hsame.trans (same_clear _), fun h => absurd h hfailed⟩
  · rename_i hfailed
    exact ⟨hidle₁, hsame, fun h => absurd h hfailed⟩

/-! ### Every run -/

/-- The calls that extract or verify. -/
inductive Extraction (reader : ZipReader) (expected : ZipExpectedInventory) : ZipAction → Prop
  | validateContents (hasHash : Bool) :
      Extraction reader expected (reader.validateContents expected hasHash)
  | extractOne (path : Bytes) (hasSink hasHash : Bool) :
      Extraction reader expected (reader.extractOne path expected hasSink hasHash)
  | extractOneSinglePass (path : Bytes) (hasSink hasVerifyProgress hasStreamProgress : Bool) :
      Extraction reader expected (reader.extractOneSinglePass path expected hasSink
        hasVerifyProgress hasStreamProgress)
  | extractAll (hasSink hasHash : Bool) :
      Extraction reader expected (reader.extractAll expected hasSink hasHash)

theorem Extraction.holds {action : ZipAction}
    (permit : List Milestone → ZipEntry → Prop) (h : Extraction reader expected action) (hidle : s.Idle)
    (hdirectories : ∀ entry ∈ reader.inventory.entries, entry.isDirectory = true →
      entry.size = 0 ∧ entry.crc32 = 0) (hpermit : ∀ log entry, permit log entry) :
    action.Holds (protocolContract expected permit) (fun result s' => s'.Idle ∧ reader.Same result.2) s := by
  cases h with
  | validateContents hasHash =>
    exact (validateContents_holds hidle).mono fun _ _ h => ⟨h.1, h.2.1⟩
  | extractOne path hasSink hasHash =>
    exact (extractOne_holds hidle fun _ _ => hpermit _ _).mono fun _ _ h => ⟨h.1, h.2.1⟩
  | extractOneSinglePass path hasSink hasVerifyProgress hasStreamProgress =>
    exact (extractOneSinglePass_holds hidle fun _ _ => hpermit _ _).mono fun _ _ h => ⟨h.1, h.2.1⟩
  | extractAll hasSink hasHash =>
    exact (extractAll_holds hpermit hidle hdirectories).mono fun _ _ h => ⟨h.1, h.2.1⟩

/-- Every accepted opening of a key is followed by one accepted finish or one abort of the same
key, with nothing but acts of its own in between; every other act lies in such a transaction. -/
structure Paired {κ α : Type} (acts : List (Act κ α)) : Prop where
  closed : ∀ past key rest, acts = past ++ .start key true :: rest →
    ∃ inside close later, rest = inside ++ close :: later ∧ close.Closes key ∧
      ∀ act ∈ inside, act.Inside key
  admitted : (idle : Transaction κ α).AdmitsAll acts
  ended : acts.foldl next .idle = .idle

theorem paired_of_admitted {κ α : Type} {acts : List (Act κ α)} (hadmits : (idle : Transaction κ α).AdmitsAll acts)
    (hend : acts.foldl next .idle = .idle) : Paired acts where
  closed := by
    rintro past key rest rfl
    exact paired hadmits hend
  admitted := hadmits
  ended := hend

/-- A digest in the monitor was reported by the hash sink, of the bytes it had been fed. -/
theorem digest_reported {events : List (Event zipSignature)} {fed : Bytes} {digest : Digest}
    (h : (events.foldl observe .start).digest = some (fed, digest)) :
    ∃ past later, events = past ++ ⟨.hashFinish, some digest⟩ :: later ∧
      (past.foldl observe .start).hash = .active () fed := by
  induction events using List.reverseRecOn with
  | nil => cases h
  | append_singleton events event ih =>
    rw [foldl_append] at h
    change noteDigest _ event = _ at h
    unfold noteDigest at h
    split at h
    · rename_i reported
      split at h
      · rename_i hactive
        cases h
        exact ⟨events, [], rfl, hactive⟩
      · obtain ⟨past, later, rfl, hpast⟩ := ih h
        exact ⟨past, later ++ [⟨.hashFinish, some reported⟩], by simp, hpast⟩
    · obtain ⟨past, later, rfl, hpast⟩ := ih h
      exact ⟨past, later ++ [event], by simp, hpast⟩

/-- What a run does with its sinks. -/
structure Transactional (expected : ZipExpectedInventory) (events : List (Event zipSignature)) :
    Prop where
  sink : Paired (events.filterMap sinkAct)
  hash : Paired (events.filterMap hashAct)
  committed : ∀ past entry answer rest, events = past ++ ⟨.sinkCommit entry, answer⟩ :: rest →
    ∃ fed, (past.foldl observe .start).sink = .active entry fed ∧
      fed.length = entry.size ∧ crc32 fed = entry.crc32 ∧
      (entry.isDirectory = false → ∀ file digest,
        findExpectedFile expected entry.path = some file → file.sha256 = some digest →
        ∃ before after, past = before ++ ⟨.hashFinish, some digest⟩ :: after ∧
          (before.foldl observe .start).hash = .active () fed)

/-- The extraction sink protocol is transactional: for every archive that opened and every answer
of the source, the inflater, the sinks and the progress hooks after that. -/
theorem extraction_transactional {before reader : ZipReader} {entryCapacity : Nat}
    {limits : ZipLimits} {hasProgress : Bool} {opening : List (Event zipSignature)}
    {opened : ZipStatus × ZipReader}
    (hopened : AnyRun (before.open entryCapacity limits hasProgress) opening opened)
    (hok : opened.1 = .ok) (hreader : opened.2.Same reader) {action : ZipAction}
    (haction : Extraction reader expected action) {events : List (Event zipSignature)}
    {result : ZipStatus × ZipReader} (hrun : AnyRun action events result) :
    Transactional expected events ∧ opened.2.Same result.2 := by
  have hportable := ((hopened.holds (open_holds before entryCapacity limits hasProgress [])).1 hok).2.2.1
  have hdirectories : ∀ entry ∈ reader.inventory.entries, entry.isDirectory = true →
      entry.size = 0 ∧ entry.crc32 = 0 := by
    intro entry hentry hdirectory
    rw [hreader.inventory] at hentry
    exact (hportable.directory entry hentry hdirectory).2.2
  have hstart : start.Idle := ⟨rfl, rfl⟩
  obtain ⟨hobeyed, ⟨hsink, hhash⟩, hsame⟩ := hrun.monitored
    (haction.holds (fun _ _ => True) hstart hdirectories fun _ _ => trivial)
  refine ⟨⟨?_, ?_, ?_⟩, hreader.trans hsame⟩
  · obtain ⟨hadmits, hend⟩ := hobeyed.admitsAll sink sinkAct
      allows_sink fun _ _ => rfl
    exact paired_of_admitted hadmits (hend.trans hsink)
  · obtain ⟨hadmits, hend⟩ := hobeyed.admitsAll hash hashAct
      allows_hash fun _ _ => rfl
    exact paired_of_admitted hadmits (hend.trans hhash)
  · rintro past entry answer rest rfl
    obtain ⟨fed, hactive, hsize, hcrc, hdigest⟩ := hobeyed.at
    refine ⟨fed, hactive, hsize, hcrc, fun hfile file digest hwanted hsome => ?_⟩
    exact digest_reported (hdigest hfile file digest hwanted hsome)

def sampleExpected : ZipExpectedInventory := ⟨[⟨ascii "D/A", 1, .store, none⟩], [ascii "D"]⟩

def extractedSample : List (Event zipSignature) × (ZipStatus × ZipReader) × Unit :=
  (openedSample.2.1.2.extractAll sampleExpected true false).run (served sampleArchive) ()

theorem extractedSample_runs : AnyRun (sampleReader.open 8 {} false) openedSample.1 openedSample.2.1 ∧
    AnyRun (openedSample.2.1.2.extractAll sampleExpected true false) extractedSample.1 extractedSample.2.1 := by
  unfold extractedSample
  exact ⟨run_anyRun _ _ _, run_anyRun _ _ _⟩

theorem extractedSample_transactional :
    extractedSample.2.1.1 = .ok ∧ Transactional sampleExpected extractedSample.1 := by
  obtain ⟨hopened, hrun⟩ := extractedSample_runs
  have hok : openedSample.2.1.1 = .ok := by decide +kernel
  have haction : Extraction openedSample.2.1.2 sampleExpected
      (openedSample.2.1.2.extractAll sampleExpected true false) := .extractAll true false
  have htransactional := extraction_transactional hopened hok (ZipReader.Same.refl _) haction hrun
  exact ⟨by decide +kernel, htransactional.1⟩

/-- An extraction of the whole archive that succeeds has begun and committed every directory and then every file, each
once and in the order of the archive, and nothing else. -/
theorem extractAll_whole {before : ZipReader} {entryCapacity : Nat} {limits : ZipLimits} {hasProgress : Bool}
    {opening : List (Event zipSignature)} {opened : ZipStatus × ZipReader}
    (hopened : AnyRun (before.open entryCapacity limits hasProgress) opening opened)
    (hok : opened.1 = .ok) (hreader : opened.2.Same reader) {events : List (Event zipSignature)}
    {result : ZipStatus × ZipReader} (hrun : AnyRun (reader.extractAll expected hasSink hasHash) events result)
    (hend : result.1 = .ok) : (events.foldl observe .start).log =
      ofEntries (directoryEntries opened.2.inventory.entries) ++
        ofEntries (fileEntries opened.2.inventory.entries) := by
  have hportable := ((hopened.holds (open_holds before entryCapacity limits hasProgress [])).1 hok).2.2.1
  rw [← hreader.inventory]
  have hdirectories : ∀ entry ∈ reader.inventory.entries, entry.isDirectory = true →
      entry.size = 0 ∧ entry.crc32 = 0 := by
    intro entry hentry hdirectory
    rw [hreader.inventory] at hentry
    exact (hportable.directory entry hentry hdirectory).2.2
  obtain ⟨-, -, -, hlog⟩ := hrun.monitored
    (extractAll_holds (fun _ _ => trivial) (⟨rfl, rfl⟩ : start.Idle) hdirectories)
  exact hlog hend

theorem extractedSample_whole : ((extractedSample.1.foldl observe .start).log.map fun
    | .begun entry => (false, entry.path)
    | .committed entry => (true, entry.path)) =
      [(false, ascii "D"), (true, ascii "D"), (false, ascii "D/A"), (true, ascii "D/A")] := by
  obtain ⟨hopened, hrun⟩ := extractedSample_runs
  rw [extractAll_whole hopened (by decide +kernel) (.refl _) hrun (by decide +kernel)]
  decide +kernel

end Bmx.Zip
