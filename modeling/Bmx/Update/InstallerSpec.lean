import Bmx.Update.Acceptance
import Bmx.Update.SinkSpec

/-!
# What `Install` does to the card

One statement for each stage of `Install`, under every behaviour of the archive, the progress report
and the card. The stages up to the free space check leave the card alone; every later stage moves it
along the course.
-/

namespace Bmx.Update

open Interaction FatFs Zip Fallible Upholds Course List SimpleUpdateResult

/-- Somewhere on the course, with every failed rename accounted for. -/
def Course.Halted (course : Course) (r : FsState) : Prop := ∃ done hole, course.At done hole r

theorem Course.Stopped.halted {course : Course} {done : List PlanStep} {file : ManifestFile}
    {r : FsState} (h : course.Stopped done file r) : course.Halted r := by
  rcases h with h | h | h
  · exact ⟨_, _, h⟩
  · exact ⟨_, _, h⟩
  · exact ⟨_, _, h⟩

section Stages

variable {course : Course} {done rest : List PlanStep} {hole : Option Bytes} {r : FsState}
  {hasProgress : Bool} {asset : ManifestAsset} {result : SimpleUpdateResult}
  {status : SimpleUpdateStatus}

theorem succeedOr_holds {call : Program installSignature Bool} {P : Bool → FsState → Prop}
    {Q : Unit → FsState → Prop} {R : SimpleUpdateResult → FsState → Prop}
    (hcall : call.Holds course.contract P r) (htrue : ∀ r', P true r' → Q () r')
    (hfalse : ∀ r', P false r' → R (result.withStatus status) r') :
    Upholds course.contract Q R (succeedOr call result status) r := by
  unfold succeedOr
  refine bind (upholds_lift.2 hcall) fun succeeded r' h => ?_
  cases succeeded with
  | true => exact htrue r' h
  | false => exact hfalse r' h

/-! ### Extraction -/

variable {file : ManifestFile} {hash : SimpleZipHashSink}
  {stageBase stageTotal pass bufferSize base total offset hashed hashTotal completed : Nat} {p : Protocol}
  {t : InstallSinks} {reader : ZipReader} {state : Extracting} {action : FileAction}
  {items : List (ManifestFile × FileAction)} {path content absolute : Bytes} {paths : List Bytes}
  {workspace : SimpleUpdateWorkspace} {r' r₀ : FsState} {handle : ReadId} {resetConfiguration : Bool}
  {comparison : Comparison} {fs : FatFsUpdateFileSystem} {before : Volume}

theorem sinkSim_start (card : course.At done none r) : SinkSim course done file .start
      ⟨.forFile file.path stageBase stageTotal, hash⟩ r where
  digest _ _ h := by cases h
  hash _ h := by cases h
  path := rfl
  card := .ready card

theorem SinkSim.placed {entry : ZipEntry}
    (h : SinkSim course done file p t r) (hlog : p.log = [.begun entry, .committed entry]) :
    course.At (done ++ [.place file]) none r := by
  have hcard := h.card
  rw [hlog] at hcard
  generalize p.sink = transaction at hcard
  cases hcard with
  | placed card => exact card

theorem SinkSim.stopped
    (h : SinkSim course done file p t r) (hlog : p.log = [] ∨ ∃ entry, p.log = [.begun entry]) :
    course.Stopped done file r := by
  have hcard := h.card
  generalize p.sink = transaction at hcard
  rcases hlog with hlog | ⟨entry, hlog⟩
  · rw [hlog] at hcard
    cases hcard with
    | ready card => exact .inl card
  · rw [hlog] at hcard
    cases hcard with
    | writing _ _ _ _ _ card => exact .inl card
    | refusing card => exact card
    | abandoned card => exact card

/-- `ExtractOne` into the installer's sinks places the file, or stops the replacement. -/
theorem extractOne_places (haccepted : course.accepted)
    (hplan : course.plan = done ++ .place file :: rest) (hfile : file ∈ asset.files)
    (hbound : Bound asset reader) (card : course.At done none r) :
    ((reader.extractOne file.path (buildExpectedInventory asset) true true).through
      (sinkLayer hasProgress) ⟨.forFile file.path stageBase stageTotal, hash⟩).Holds course.contract
      (fun reply r' => Bound asset reply.1.2 ∧ if reply.1.1 = .ok then
        course.At (done ++ [.place file]) none r' else course.Stopped done file r') r := by
  obtain ⟨wanted, hwanted, hdigest⟩ := hbound.expected hfile
  have hpermit : ∀ entry, reader.inventory.findFile file.path = some entry →
      permitsFile file Protocol.start.log entry := by
    intro entry hentry
    obtain ⟨other, hother, hsize⟩ := hbound.found hfile
    obtain rfl : entry = other := Option.some.inj (hentry.symm.trans hother)
    exact ⟨rfl, hsize⟩
  have hextract : (reader.extractOne file.path (buildExpectedInventory asset) true true).Holds
      (protocolContract (buildExpectedInventory asset) (permitsFile file))
      (ExtractsOne reader file.path []) .start := extractOne_holds ⟨rfl, rfl⟩ hpermit
  refine (hextract.through (sinkSim_start card) fun op p t r hallows hsim => ?_).mono
    fun reply r' hreply => ?_
  · exact sinkLayer_holds haccepted hplan hwanted hdigest op p t r hallows hsim
  · obtain ⟨p, ⟨-, hsame, hok, hfailed⟩, hsim⟩ := hreply
    refine ⟨hbound.of_same hsame, ?_⟩
    split
    · rename_i hstatus
      obtain ⟨entry, -, hlog⟩ := hok hstatus
      exact hsim.placed hlog
    · rename_i hstatus
      refine hsim.stopped ((hfailed hstatus).imp_right ?_)
      rintro ⟨entry, -, hlog⟩
      exact ⟨entry, hlog⟩

theorem extractFile_holds (haccepted : course.accepted) (hplan : course.plan = done ++ .place file :: rest)
    (hfile : file ∈ asset.files) (hbound : Bound asset state.reader)
    (card : course.At done none r) :
    Upholds course.contract (fun state' r' => Bound asset state'.reader ∧
        course.At (done ++ [.place file]) none r')
      (fun result r' => result.status = .extractFailed ∧ course.Halted r')
      (extractFile hasProgress (buildExpectedInventory asset) stageTotal file state) r := by
  unfold extractFile
  refine bind (upholds_lift.2 (extractOne_places haccepted hplan hfile hbound card))
    fun reply r₁ h₁ => ?_
  obtain ⟨hbound', hcard⟩ := h₁
  dsimp only at hbound' hcard ⊢
  split
  · rename_i hfailed
    rw [if_neg hfailed] at hcard
    refine bind (upholds_lift.2 (stopped_holds (fun _ _ hat =>
      (course.removeTemporary_holds haccepted hat).mono fun _ _ hleft => hleft.1) hcard)) fun _ r₂ h₂ => ?_
    exact ⟨rfl, h₂.halted⟩
  · rename_i hok
    rw [if_pos (not_not.1 hok)] at hcard
    exact ⟨hbound', hcard⟩

theorem passSteps_cons_of_skipped (h : installPass file ≠ pass ∨ action ≠ .installFile) :
    passSteps pass ((file, action) :: items) = passSteps pass items := by
  unfold passSteps
  rw [filter_cons_of_neg]
  simpa [imp_iff_not_or] using h

theorem passSteps_cons_of_taken (h : ¬ (installPass file ≠ pass ∨ action ≠ .installFile)) :
    passSteps pass ((file, action) :: items) = .place file :: passSteps pass items := by
  unfold passSteps
  rw [filter_cons_of_pos]
  · rfl
  · simpa [not_or] using h

theorem extractPass_holds (haccepted : course.accepted) (hplan : course.plan = done ++ (passSteps pass items ++ rest))
    (hfiles : ∀ item ∈ items, item.1 ∈ asset.files) (hbound : Bound asset state.reader)
    (card : course.At done none r) :
    Upholds course.contract (fun state' r' => Bound asset state'.reader ∧
        course.At (done ++ passSteps pass items) none r')
      (fun result r' => result.status = .extractFailed ∧ course.Halted r')
      (extractPass hasProgress (buildExpectedInventory asset) stageTotal pass items state) r := by
  induction items generalizing done state r with
  | nil =>
    refine ⟨hbound, ?_⟩
    rw [show passSteps pass [] = [] from rfl, append_nil]
    exact card
  | cons item items ih =>
    obtain ⟨file, action⟩ := item
    have hrest : ∀ item ∈ items, item.1 ∈ asset.files := fun other hother =>
      hfiles other (mem_cons_of_mem _ hother)
    unfold extractPass
    split
    · rename_i hskipped
      rw [passSteps_cons_of_skipped hskipped] at hplan ⊢
      exact ih hplan hrest hbound card
    · rename_i htaken
      rw [passSteps_cons_of_taken htaken] at hplan ⊢
      have hfile : file ∈ asset.files := hfiles _ mem_cons_self
      refine bind (extractFile_holds haccepted hplan hfile hbound card) fun state' r' h => ?_
      rw [append_cons]
      refine ih ?_ hrest h.1 h.2
      rw [hplan, cons_append, append_cons]

/-! ### Removal -/

theorem removeSignedFile_holds (haccepted : course.accepted)
    (hplan : course.plan = done ++ .remove path :: rest) (card : course.At done none r) :
    (removeSignedFile path).Holds course.contract (fun reply r' => if reply.1 then
      course.At (done ++ [.remove path]) none r' else course.Halted r') r := by
  have hstat : (fileSystem (.stat path)).Holds course.contract (fun stat r' => r' = r ∧
      ∀ info, stat = some info → ∃ absolute, course.fs.resolve path = some absolute ∧
        info = statOf (r.volume.lookup absolute)) r := by
    apply fileSystem_holds
    · exact midway_here (fun _ hv => hv.resolve_right id) card.onPlan
    · intro stat r' hafter
      exact hafter
  unfold removeSignedFile
  refine hstat.bind fun stat r₁ h₁ => ?_
  obtain ⟨rfl, hinfo⟩ := h₁
  cases stat with
  | none => exact ⟨_, _, card⟩
  | some info =>
    obtain ⟨absolute, hresolve, hinfo⟩ := hinfo info rfl
    dsimp only
    split
    · exact ⟨_, _, card⟩
    split
    · rename_i hmissing
      -- nothing to remove: the step is achieved as it stands
      have hnode : r₁.volume.lookup absolute = .missing := by
        rw [hinfo] at hmissing
        cases hnode : r₁.volume.lookup absolute <;> rw [hnode] at hmissing <;>
          first | rfl | cases hmissing
      exact ⟨card.reached.remove haccepted hplan hresolve (sets_same hnode), card.lost⟩
    · have hremove : (fileSystem (.removeFile path)).Holds course.contract (fun removed r' =>
          if removed then course.At (done ++ [.remove path]) none r' else course.Halted r') r₁ := by
        apply fileSystem_holds
        · exact midway_here (fun _ hv => hv.resolve_right id) card.onPlan
        · intro removed r' hafter
          obtain ⟨hlost, -, hkept, hgone⟩ := hafter
          cases removed with
          | false => exact ⟨_, _, card.same (hkept rfl) hlost⟩
          | true =>
            obtain ⟨target, htarget, -, hsets⟩ := hgone rfl
            exact ⟨card.reached.remove haccepted hplan htarget hsets, hlost.trans card.lost⟩
      refine hremove.bind fun removed r₂ h₂ => ?_
      cases removed with
      | false => exact h₂
      | true =>
        have hsync : (fileSystem (.syncContainingDirectory path)).Holds course.contract
            (fun _ r' => r' = r₂) r₂ := by
          apply fileSystem_holds
          · exact midway_here (fun _ hv => hv.resolve_right id) h₂.onPlan
          · intro synced r' hafter
            exact hafter.1
        refine hsync.bind fun synced r₃ h₃ => ?_
        obtain rfl : r₃ = r₂ := h₃
        cases synced with
        | true => exact h₂
        | false => exact ⟨_, _, h₂⟩

theorem removeSignedFiles_holds (haccepted : course.accepted)
    (hplan : course.plan = done ++ (paths.map .remove ++ rest)) (card : course.At done none r) :
    Upholds course.contract (fun _ r' => course.At (done ++ paths.map .remove) none r')
      (fun result r' => result.status = .publishFailed ∧ course.Halted r')
      (removeSignedFiles paths result) r := by
  induction paths generalizing done result r with
  | nil =>
    change course.At (done ++ []) none r
    rw [append_nil]
    exact card
  | cons path paths ih =>
    unfold removeSignedFiles
    refine bind (upholds_lift.2 (removeSignedFile_holds haccepted hplan card))
      fun reply r' h => ?_
    obtain ⟨succeeded, removed⟩ := reply
    cases succeeded with
    | false => exact ⟨rfl, h⟩
    | true =>
      rw [map_cons, append_cons]
      refine ih ?_ h
      rw [hplan, map_cons, cons_append, append_cons]

theorem createDirectories_holds (haccepted : course.accepted)
    (hpaths : ∀ path ∈ paths, path ∈ course.directories) (card : course.At [] none r) :
    Upholds course.contract (fun _ r' => course.At [] none r')
      (fun result r' => result.status = .fileSystemError ∧ course.Halted r')
      (createDirectories paths result) r := by
  induction paths generalizing r with
  | nil => exact card
  | cons path paths ih =>
    have hcreate : (fileSystem (.createDirectory path)).Holds course.contract
        (fun _ r' => course.At [] none r') r := by
      have hmade : ∀ {v : Volume} {absolute : Bytes}, course.fs.resolve path = some absolute →
          r.volume.lookup absolute = .missing → Sets r.volume v absolute .directory →
          course.Reached [] none v := fun hresolve hnothing hsets =>
        card.reached.directory haccepted (hpaths path mem_cons_self) hresolve hnothing hsets
      apply fileSystem_holds
      · rintro v (rfl | ⟨absolute, hresolve, hnothing, hsets⟩)
        · exact card.onPlan
        · exact (hmade hresolve hnothing hsets).onPlan
      · intro created r' hafter
        obtain ⟨hlost, -, hsame | ⟨absolute, hresolve, hnothing, hsets⟩⟩ := hafter
        · exact card.same hsame hlost
        · exact ⟨hmade hresolve hnothing hsets, hlost.trans card.lost⟩
    unfold createDirectories
    refine bind (P := fun _ r' => course.At [] none r')
      (succeedOr_holds hcreate (fun _ h => h) fun r' h => ?_) fun _ r' h => ?_
    · exact ⟨rfl, _, _, h⟩
    · exact ih (fun other hother => hpaths other (mem_cons_of_mem _ hother)) h

/-! ### Opening the archive -/

theorem archive_holds {sinks : InstallSinks} {op : ZipOp} (hop : ReadsArchive op) (h : course.OnPlan r.volume) :
    (sinkLayer hasProgress op sinks).Holds course.contract (fun _ r' => r' = r) r := by
  cases op with
  | getSize | readAt offset count => exact (outside_holds h).bind fun _ _ hsame => hsame
  | progress hook produced total => exact rfl
  | _ => exact hop.elim

/-- The reader has left the card alone. -/
def Unmoved {ρ : Type} (r : FsState) (_ : ρ) (_ : InstallSinks) (r' : FsState) : Prop := r' = r

/-- A call of the reader that only reads the archive ends as it does anywhere, with the card as it
was. -/
theorem reading_holds {ρ α : Type} {C : Contract zipSignature ρ} {p : Program zipSignature α}
    {Q : α → ρ → Prop} {state : ρ} (sinks : InstallSinks) (hreads : ∀ op state, C.pre op state → ReadsArchive op)
    (htotal : ∀ op state answer, ∃ state', C.post op state answer state')
    (hp : p.Holds C Q state) (h : course.OnPlan r.volume) :
    (p.through (sinkLayer hasProgress) sinks).Holds course.contract
      (fun reply r' => r' = r ∧ ∃ state', Q reply.1 state') r := by
  have hlayer : ∀ op state sinks r', C.pre op state → Unmoved r state sinks r' →
      (sinkLayer hasProgress op sinks).Holds course.contract (fun reply r'' =>
        ∃ state', C.post op state reply.1 state' ∧ Unmoved r state' reply.2 r'') r' := by
    rintro op state sinks r' hpre rfl
    refine (archive_holds (hreads op state hpre) h).mono fun reply r'' hsame => ?_
    obtain ⟨state', hpost⟩ := htotal op state reply.1
    exact ⟨state', hpost, hsame⟩
  refine (hp.through rfl hlayer).mono fun reply r' hreply => ?_
  obtain ⟨state', hvalue, hsame⟩ := hreply
  exact ⟨hsame, state', hvalue⟩

/-- Surroundings of a reader that binds an inventory: nothing about the answers matters. -/
def readsContract : Contract zipSignature Unit := ⟨fun op _ => ReadsArchive op, fun _ _ _ _ => True⟩

theorem bindInventory_holds (asset : ManifestAsset) (hportable : Portable {} reader.inventory.entries) :
    (reader.bindAuthenticatedInventory (buildExpectedInventory asset)).Holds readsContract
      (fun result _ => result.1 = .ok → Bound asset result.2) () := by
  have hindifferent : Indifferent readsContract := fun _ _ _ _ => ⟨trivial, fun _ _ _ => rfl⟩
  unfold ZipReader.bindAuthenticatedInventory
  refine Program.Holds.bind (keeps_verifyExpectedInventory hindifferent) fun verified _ h => ?_
  cases verified with
  | error status =>
    intro hok
    exact absurd hok h.1
  | ok requiresHash =>
    dsimp only
    split
    · intro hok
      cases hok
    · exact fun _ => ⟨hportable, h.2.1⟩

theorem openArchive_holds (h : course.OnPlan r.volume) :
    Upholds course.contract (fun reader r' => r' = r ∧ Bound asset reader)
      (fun result r' => r' = r ∧ result.status = .zipInvalid)
      (openArchive hasProgress workspace (buildExpectedInventory asset) result) r := by
  unfold openArchive
  have hopen := open_holds { ZipReader.initial with hasWorkspace := workspace.hasZipWorkspace }
    workspace.zipEntryCapacity {} false []
  refine bind (upholds_lift.2 (reading_holds _ (fun _ _ hpre => hpre)
    (fun _ _ _ => ⟨_, rfl⟩) hopen h)) fun reply r₁ h₁ => ?_
  obtain ⟨rfl, past, hopened, -⟩ := h₁
  dsimp only at hopened ⊢
  split
  · exact ⟨rfl, rfl⟩
  · rename_i hok
    have hbind := bindInventory_holds asset (hopened (not_not.1 hok)).2.2.1
    refine bind (upholds_lift.2 (reading_holds _ (fun _ _ hpre => hpre)
      (fun _ _ _ => ⟨(), trivial⟩) hbind h)) fun reply r₂ h₂ => ?_
    obtain ⟨⟨bound, reader'⟩, _⟩ := reply
    obtain ⟨rfl, -, hbound⟩ := h₂
    split
    · exact ⟨rfl, rfl⟩
    · rename_i hok'
      exact ⟨rfl, hbound (not_not.1 hok')⟩

/-! ### Comparing the card with the manifest -/

/-- The card is as it was; handles may have been opened and closed. -/
def SameCard (r r' : FsState) : Prop := r'.volume = r.volume ∧ r'.lost = r.lost

/-- An early return before anything was changed. -/
def Refused (r : FsState) (result : SimpleUpdateResult) (r' : FsState) : Prop :=
  result.status ≠ .ok ∧ SameCard r r'

theorem SameCard.refl (r : FsState) : SameCard r r := ⟨rfl, rfl⟩

theorem SameCard.trans {r r'' : FsState} (h : SameCard r r') (h' : SameCard r' r'') :
    SameCard r r'' := ⟨h'.1.trans h.1, h'.2.trans h.2⟩

theorem SameCard.onPlan {r : FsState} (h : SameCard r r') (hplan : course.OnPlan r.volume) :
    course.OnPlan r'.volume := by
  rw [h.1]
  exact hplan

theorem observing_holds {op : FileSystemOp} (hop : ∀ v', Midway course.fs op r v' → v' = r.volume)
    (h : course.OnPlan r.volume) :
    (fileSystem op).Holds course.contract (fun answer r' => After course.fs op r answer r') r :=
  fileSystem_holds (midway_here hop h) fun _ _ hafter => hafter

theorem closeRead_holds (h : course.OnPlan r.volume) :
    (fileSystem (.closeRead handle)).Holds course.contract (fun _ r' => SameCard r r') r :=
  (observing_holds (fun _ hv => hv.resolve_right id) h).mono fun _ _ hafter =>
    ⟨hafter.1, hafter.2.1⟩

/-- What `HashTarget` reports of a file with this content. -/
def Hashed (r : FsState) (content : Bytes) (status : HashTargetStatus) (r' : FsState) : Prop :=
  SameCard r r' ∧ ∀ digest, status = .ok digest → sha256Digest content = some digest

theorem hashed_of_failure {status : HashTargetStatus}
    (hsame : SameCard r r') (hstatus : ∀ digest, status ≠ .ok digest) :
    Hashed r content status r' := ⟨hsame, fun digest h => absurd h (hstatus digest)⟩

theorem hashEnd_holds {hash : Sha256} (h : course.OnPlan r.volume) (hfed : hash.Fed (content.take offset))
    (hend : content.length ≤ offset) :
    (hashLoop hasProgress handle content.length bufferSize base total 0 offset hash).Holds
      course.contract (Hashed r content) r := by
  rw [take_of_length_le hend] at hfed
  unfold hashLoop
  refine (closeRead_holds h).bind fun closed r₁ h₁ => ?_
  cases hfinal : if closed then hash.final else none with
  | none => exact hashed_of_failure h₁ fun _ hfailed => by cases hfailed
  | some digest =>
    refine ⟨h₁, fun reported hreported => ?_⟩
    obtain rfl := HashTargetStatus.ok.inj hreported
    split at hfinal
    · exact hfed.final hfinal
    · cases hfinal

theorem hashLoop_holds {fuel : Nat} {hash : Sha256} (hbuffer : 0 < bufferSize)
    (hreading : Reading r handle absolute content) (h : course.OnPlan r.volume)
    (hfed : hash.Fed (content.take offset)) (hfuel : content.length ≤ offset + fuel) :
    (hashLoop hasProgress handle content.length bufferSize base total fuel offset hash).Holds
      course.contract (Hashed r content) r := by
  induction fuel generalizing offset hash r with
  | zero => exact hashEnd_holds h hfed hfuel
  | succ fuel ih =>
    unfold hashLoop
    split
    · rename_i hmore
      generalize hamount : min bufferSize (content.length - offset) = amount
      have hread : (fileSystem (.readAt handle offset amount)).Holds course.contract
          (fun bytes r' => SameCard r r' ∧ Reading r' handle absolute content ∧
            ∀ received, bytes = some received → received = (content.drop offset).take amount) r :=
        (observing_holds (fun _ hv => hv.resolve_right id) h).mono fun bytes r' hafter =>
          ⟨⟨hafter.1, hafter.2.1⟩, (hafter.2.2.2 absolute content hreading).1,
            fun received hreceived => ((hafter.2.2.2 absolute content hreading).2 received hreceived).1⟩
      refine hread.bind fun bytes r₁ h₁ => ?_
      obtain ⟨hsame, hreading₁, hbytes⟩ := h₁
      have hplan₁ : course.OnPlan r₁.volume := hsame.onPlan h
      cases hnext : bytes.bind hash.update with
      | none =>
        refine (closeRead_holds hplan₁).bind fun _ r₂ h₂ => ?_
        exact hashed_of_failure (hsame.trans h₂) fun _ hfailed => by cases hfailed
      | some next =>
        obtain ⟨received, rfl, hupdate⟩ := Option.bind_eq_some_iff.1 hnext
        refine (report_holds hplan₁).bind fun going r₂ h₂ => ?_
        obtain rfl : r₂ = r₁ := h₂
        split
        · have hfed' : next.Fed (content.take (offset + amount)) := by
            rw [take_add, ← hbytes received rfl]
            exact hfed.update hupdate
          refine (ih hreading₁ hplan₁ hfed' (by omega)).mono fun status r₃ h₃ => ?_
          exact ⟨hsame.trans h₃.1, h₃.2⟩
        · refine (closeRead_holds hplan₁).bind fun _ r₃ h₃ => ?_
          exact hashed_of_failure (hsame.trans h₃) fun _ hfailed => by cases hfailed
    · rename_i hdone
      exact hashEnd_holds h hfed (by omega)

theorem hashTarget_holds {size : Nat} (hbuffer : 0 < bufferSize) (h : course.OnPlan r.volume) :
    (hashTarget hasProgress path size bufferSize base total).Holds course.contract
      (fun status r' => SameCard r r' ∧ ∀ digest, status = .ok digest → ∃ absolute content,
        course.fs.resolve path = some absolute ∧ r.volume.lookup absolute = .file content ∧
          sha256Digest content = some digest) r := by
  unfold hashTarget
  refine (observing_holds (fun _ hv => hv.resolve_right id) h).bind fun opened r₁ h₁ => ?_
  obtain ⟨hvolume, hlost, -, hopened⟩ := h₁
  have hsame : SameCard r r₁ := ⟨hvolume, hlost⟩
  have hplan₁ : course.OnPlan r₁.volume := hsame.onPlan h
  cases opened with
  | none => exact ⟨hsame, fun _ hfailed => by cases hfailed⟩
  | some handle =>
    obtain ⟨absolute, content, hresolve, hreading⟩ := hopened handle rfl
    refine (observing_holds (fun _ hv => hv.resolve_right id) hplan₁).bind fun actual r₂ h₂ => ?_
    obtain ⟨rfl, hsize⟩ := h₂
    split
    · rename_i hactual
      obtain rfl : size = content.length := hsize absolute content hreading size hactual
      refine (hashLoop_holds hbuffer hreading hplan₁ Sha256.fed_reset (by omega)).mono
        fun status r₃ h₃ => ⟨hsame.trans h₃.1, fun digest hdigest => ?_⟩
      refine ⟨absolute, content, hresolve, ?_, h₃.2 digest hdigest⟩
      rw [← hvolume]
      exact hreading.stored
    · refine (closeRead_holds hplan₁).bind fun _ r₃ h₃ => ?_
      exact ⟨hsame.trans h₃, fun _ hfailed => by cases hfailed⟩

theorem compareTarget_holds (hbuffer : 0 < bufferSize) (h : course.OnPlan r.volume)
    (hresolve : course.fs.resolve file.path = some absolute)
    (hnode : r.volume.lookup absolute = .file content) :
    Upholds course.contract (fun action r' => SameCard r r' ∧
        action = if sha256Digest content = some file.sha256 then .keepUnchanged else .installFile)
      (Refused r) (compareTarget hasProgress bufferSize hashed hashTotal file result) r := by
  unfold compareTarget
  refine bind (upholds_lift.2 (hashTarget_holds hbuffer h)) fun status r₁ h₁ => ?_
  obtain ⟨hsame, hdigest⟩ := h₁
  cases status with
  | canceled | failed => exact ⟨by simp [withStatus], hsame⟩
  | ok digest =>
    obtain ⟨target, stored, htarget, hstored, hcontent⟩ := hdigest digest rfl
    obtain rfl : absolute = target := Option.some.inj (hresolve.symm.trans htarget)
    obtain rfl : content = stored := Node.file.inj (hnode.symm.trans hstored)
    refine ⟨hsame, ?_⟩
    rw [hcontent]
    simp only [constantTimeDigestEqual_iff, Option.some.injEq]

/-- The action selected is the one the card and the manifest determine. -/
theorem selectAction_holds (hbuffer : 0 < bufferSize) (h : course.OnPlan r.volume) :
    Upholds course.contract (fun action r' => SameCard r r' ∧
        action = selectedAction course.fs r.volume resetConfiguration file) (Refused r)
      (selectAction hasProgress resetConfiguration bufferSize hashed hashTotal file result) r := by
  unfold selectAction
  refine bind (upholds_lift.2 (observing_holds (fun _ hv => hv.resolve_right id) h))
    fun stat r₁ h₁ => ?_
  obtain ⟨rfl, hstat⟩ := h₁
  cases stat with
  | none => exact ⟨by simp [withStatus], .refl r₁⟩
  | some info =>
    obtain ⟨absolute, hresolve, rfl⟩ := hstat info rfl
    unfold selectedAction
    rw [hresolve]
    dsimp only
    cases hnode : r₁.volume.lookup absolute with
    | directory => exact ⟨by simp [withStatus], .refl r₁⟩
    | missing =>
      simp only [statOf, reduceCtorEq, ne_eq, not_true_eq_false, false_and, and_false, if_false]
      exact ⟨.refl r₁, rfl⟩
    | file content =>
      simp only [statOf, actionFor, ne_eq, not_true_eq_false, and_false, and_true, true_and, if_false]
      by_cases hpreserves : preserves file resetConfiguration = true
      · rw [if_pos hpreserves, if_pos hpreserves]
        exact ⟨.refl r₁, rfl⟩
      · rw [if_neg hpreserves, if_neg hpreserves]
        by_cases hsize : content.length = file.size
        · simp only [hsize, true_and, if_true]
          exact compareTarget_holds hbuffer h hresolve hnode
        · rw [if_neg hsize, if_neg fun hboth => hsize hboth.1]
          exact ⟨.refl r₁, rfl⟩

theorem countAction_status {failed : SimpleUpdateResult} (h : countAction file action result = .error failed) :
    failed.status ≠ .ok := by
  cases action with
  | preserveExisting => cases h
  | keepUnchanged => cases h
  | installFile =>
    unfold countAction at h
    dsimp only at h
    split at h
    · obtain rfl := Except.error.inj h
      simp [withStatus]
    · cases h

theorem reportOr_holds {phase : SimpleUpdatePhase}
    (hstatus : status ≠ .ok) (hsame : SameCard r₀ r) (h : course.OnPlan r.volume) :
    Upholds course.contract (fun _ r' => r' = r) (Refused r₀)
      (succeedOr (report hasProgress phase completed total) result status) r := by
  refine succeedOr_holds (report_holds h) (fun _ h => h) fun r' hr' => ⟨hstatus, ?_⟩
  obtain rfl : r' = r := hr'
  exact hsame

theorem compareFiles_holds {files : List ManifestFile} (hbuffer : 0 < bufferSize)
    (hsame : SameCard r₀ r) (h : course.OnPlan r₀.volume) :
    Upholds course.contract (fun after r' => SameCard r₀ r' ∧ after.actions = comparison.actions ++
        files.map (selectedAction course.fs r₀.volume resetConfiguration)) (Refused r₀)
      (compareFiles hasProgress resetConfiguration bufferSize hashTotal files comparison) r := by
  induction files generalizing comparison r with
  | nil => exact ⟨hsame, (append_nil _).symm⟩
  | cons file files ih =>
    unfold compareFiles
    refine bind (P := fun action r' => SameCard r₀ r' ∧
      action = selectedAction course.fs r₀.volume resetConfiguration file) ?_ fun action r₁ h₁ => ?_
    · refine (selectAction_holds hbuffer (hsame.onPlan h)).mono (fun action r' hselected => ?_)
        fun failed r' hrefused => ⟨hrefused.1, hsame.trans hrefused.2⟩
      rw [hsame.1] at hselected
      exact ⟨hsame.trans hselected.1, hselected.2⟩
    obtain ⟨hsame₁, haction⟩ := h₁
    refine bind (P := fun _ r' => r' = r₁) ?_ fun counted r₂ h₂ => ?_
    · cases hcount : countAction file action comparison.result with
      | ok counted => exact rfl
      | error failed => exact ⟨countAction_status hcount, hsame₁⟩
    subst h₂
    dsimp only
    split
    · exact ⟨by simp [withStatus], hsame₁⟩
    · refine bind (reportOr_holds (by decide) hsame₁ (hsame₁.onPlan h)) fun _ r₃ h₃ => ?_
      subst h₃
      refine (ih hsame₁).mono (fun after r₄ h₄ => ⟨h₄.1, ?_⟩) fun _ _ hrefused => hrefused
      rw [h₄.2, haction, map_cons, append_assoc, singleton_append]

/-- The stages that only look: the card is as it was and the actions are selected. -/
theorem preflight_holds (hbuffer : 0 < bufferSize) (h : course.OnPlan r.volume) :
    Upholds course.contract (fun comparison r' => SameCard r r' ∧
        comparison.actions = asset.files.map (selectedAction course.fs r.volume resetConfiguration))
      (Refused r) (preflight hasProgress asset resetConfiguration bufferSize hashTotal result) r := by
  unfold preflight
  refine bind (upholds_lift.2 (observing_holds (fun _ hv => hv.resolve_right id) h))
    fun volumeSize r₁ h₁ => ?_
  obtain rfl : r₁ = r := h₁
  cases volumeSize with
  | none => exact ⟨by simp [withStatus], .refl r₁⟩
  | some volumeSize =>
    refine bind (P := fun _ r' => r' = r₁) (upholds_require.2 ⟨fun _ => rfl,
      fun _ => ⟨by simp [withStatus], .refl r₁⟩⟩) fun _ r₂ h₂ => ?_
    subst h₂
    refine bind (reportOr_holds (by decide) (.refl r₂) h) fun _ r₃ h₃ => ?_
    subst h₃
    refine bind (compareFiles_holds hbuffer (.refl r₃) h) fun comparison r₄ h₄ => ?_
    obtain ⟨hsame, hactions⟩ := h₄
    split
    · exact ⟨by simp [withStatus], hsame⟩
    · refine bind (upholds_lift.2 (observing_holds (fun _ hv => hv.resolve_right id)
        (hsame.onPlan h))) fun free r₅ h₅ => ?_
      obtain rfl : r₅ = r₄ := h₅
      cases free with
      | none => exact ⟨by simp [withStatus], hsame⟩
      | some available =>
        refine bind (P := fun _ r' => r' = r₅) (upholds_require.2 ⟨fun _ => rfl,
          fun _ => ⟨by simp [withStatus], hsame⟩⟩) fun _ r₆ h₆ => ?_
        subst h₆
        exact ⟨hsame, hactions⟩

/-! ### The whole call -/

/-- An early return after the first change. -/
def Broken (course : Course) (result : SimpleUpdateResult) (r : FsState) : Prop :=
  result.status ∈ [.fileSystemError, .extractFailed, .publishFailed] ∧ course.Halted r

theorem work_of_actions {actions : List FileAction}
    (h : actions = asset.files.map (selectedAction fs before resetConfiguration)) :
    asset.files.zip actions = workOf fs before resetConfiguration asset := by
  have hzip := zip_map' (f := id) (g := selectedAction fs before resetConfiguration)
    (l := asset.files)
  rw [List.map_id] at hzip
  rw [h]
  exact hzip

theorem mem_workOf : ∀ item ∈ workOf fs before resetConfiguration asset, item.1 ∈ asset.files := by
  intro item hitem
  obtain ⟨file, hfile, rfl⟩ := mem_map.1 hitem
  exact hfile

theorem removeTemporaryOr_holds (haccepted : course.accepted)
    (hstatus : status ∈ [.fileSystemError, .extractFailed, .publishFailed])
    (card : course.At done none r) :
    Upholds course.contract (fun _ r' => course.At done none r') (Broken course)
      (succeedOr (fileSystem (.removeFile simpleUpdateTemporaryPath)) result status) r :=
  succeedOr_holds ((course.removeTemporary_holds haccepted card).mono fun _ _ h => h.1) (fun _ h => h)
    fun _ h => ⟨hstatus, _, _, h⟩

theorem installReport_holds (card : course.At done none r) :
    Upholds course.contract (fun _ r' => course.At done none r') (Broken course)
      (succeedOr (report hasProgress .install completed total) result .publishFailed) r := by
  refine succeedOr_holds (report_holds card.onPlan) (fun r' h => ?_) fun r' h => ?_
  · obtain rfl : r' = r := h
    exact card
  · obtain rfl : r' = r := h
    exact ⟨by simp [withStatus], _, _, card⟩

/-- From the first change to the end: the plan is carried out step by step. -/
theorem installFiles_holds (haccepted : Accepted asset) (hbound : Bound asset reader)
    (hactions : comparison.actions =
      asset.files.map (selectedAction fs before resetConfiguration))
    (card : (courseOf fs before resetConfiguration asset).At [] none r) :
    Upholds (courseOf fs before resetConfiguration asset).contract
      (fun result r' => result.status = .ok ∧ (courseOf fs before resetConfiguration asset).At
        (courseOf fs before resetConfiguration asset).plan none r')
      (Broken (courseOf fs before resetConfiguration asset))
      (installFiles hasProgress asset (buildExpectedInventory asset) reader comparison) r := by
  generalize hcourse : courseOf fs before resetConfiguration asset = course at card ⊢
  have hplan : course.plan = planOf asset (workOf fs before resetConfiguration asset) := by
    rw [← hcourse]
    rfl
  have haccepts : course.accepted := by
    rw [← hcourse]
    exact haccepted
  have hdirectories : ∀ path ∈ asset.directories, path ∈ course.directories := by
    rw [← hcourse]
    exact fun _ hpath => hpath
  have hfiles : ∀ item ∈ workOf fs before resetConfiguration asset, item.1 ∈ asset.files := mem_workOf
  unfold installFiles
  rw [work_of_actions hactions]
  generalize workOf fs before resetConfiguration asset = work at hplan hfiles
  have hextract : ∀ {pass done rest state r stageTotal},
      course.plan = done ++ (passSteps pass work ++ rest) → Bound asset state.reader →
      course.At done none r →
      Upholds course.contract (fun state' r' => Bound asset state'.reader ∧
          course.At (done ++ passSteps pass work) none r') (Broken course)
        (extractPass hasProgress (buildExpectedInventory asset) stageTotal pass work state) r := by
    intro pass done rest state r stageTotal hplan hbound card
    refine (extractPass_holds haccepts hplan hfiles hbound card).mono (fun _ _ h => h) ?_
    intro failed r' h
    exact ⟨by simp [h.1], h.2⟩
  have hremove : ∀ {paths done rest result r}, course.plan = done ++ (paths.map .remove ++ rest) →
      course.At done none r →
      Upholds course.contract (fun _ r' => course.At (done ++ paths.map .remove) none r')
        (Broken course) (removeSignedFiles paths result) r := by
    intro paths done rest result r hplan card
    refine (removeSignedFiles_holds haccepts hplan card).mono (fun _ _ h => h) ?_
    intro failed r' h
    exact ⟨by simp [h.1], h.2⟩
  refine bind (removeTemporaryOr_holds haccepts (by simp) card) fun _ r₁ card₁ => ?_
  refine bind ((createDirectories_holds haccepts hdirectories card₁).mono (fun _ _ h => h)
    fun failed r' h => ⟨by simp [h.1], h.2⟩) fun _ r₂ card₂ => ?_
  refine bind (installReport_holds card₂) fun _ r₃ card₃ => ?_
  simp only [planOf, removals, map_append, append_assoc] at hplan
  refine bind (hextract hplan hbound card₃) fun state₀ r₄ h₄ => ?_
  refine bind (hextract hplan h₄.1 h₄.2) fun state₁ r₅ h₅ => ?_
  rw [← append_assoc] at hplan
  refine bind (hextract hplan h₅.1 h₅.2) fun state₂ r₆ h₆ => ?_
  rw [← append_assoc] at hplan
  refine bind (hremove hplan h₆.2) fun result₁ r₇ card₇ => ?_
  rw [← append_assoc] at hplan
  refine bind (hremove hplan card₇) fun result₂ r₈ card₈ => ?_
  rw [← append_assoc, ← append_nil (passSteps 3 work)] at hplan
  refine bind (hextract hplan (by exact h₆.1) card₈) fun state₃ r₉ h₉ => ?_
  rw [append_nil] at hplan
  rw [← hplan] at h₉
  refine bind (removeTemporaryOr_holds haccepts (by simp) h₉.2) fun _ r₁₀ card₁₀ => ?_
  refine bind (installReport_holds card₁₀) fun _ r₁₁ card₁₁ => ?_
  exact ⟨rfl, card₁₁⟩

/-- How `Install` ends: before the first change with the card as it was, on the course with a
failure, or at the end of the plan. -/
inductive Ended (course : Course) (r : FsState) (result : SimpleUpdateResult) (r' : FsState) : Prop
  | refused (h : Refused r result r')
  | broken (h : Broken course result r')
  | complete (hstatus : result.status = .ok) (card : course.At course.plan none r')

theorem install_holds {manifest : ReleaseManifest} {authenticated : Bool}
    (card : (courseOf fs before resetConfiguration manifest.asset).At [] none r)
    (hbefore : r.volume = before) :
    (install hasProgress manifest resetConfiguration authenticated workspace).Holds
      (courseOf fs before resetConfiguration manifest.asset).contract
      (Ended (courseOf fs before resetConfiguration manifest.asset) r) r := by
  have hsteps : Upholds (courseOf fs before resetConfiguration manifest.asset).contract
      (Ended (courseOf fs before resetConfiguration manifest.asset) r)
      (Ended (courseOf fs before resetConfiguration manifest.asset) r)
      (installSteps hasProgress manifest.asset resetConfiguration authenticated workspace) r := by
    unfold installSteps
    refine bind (P := fun _ r' => r' = r ∧ workspaceValid workspace manifest.asset = true)
      (upholds_require.2 ⟨fun h => ⟨rfl, h.2⟩,
        fun _ => .refused ⟨by simp [of], .refl r⟩⟩) fun _ r₁ h₁ => ?_
    obtain ⟨rfl, hworkspace⟩ := h₁
    have hbuffer : 0 < workspace.ioBufferSize := by
      simp only [workspaceValid, Bool.and_eq_true, bne_iff_ne] at hworkspace
      omega
    cases hchecked : checkAsset manifest.asset resetConfiguration with
    | error status => exact .refused ⟨checkAsset_error hchecked, .refl r₁⟩
    | ok hashTotal =>
      refine bind ((openArchive_holds card.onPlan).mono (fun _ _ h => h) fun failed r' h =>
        .refused ⟨by simp [h.2], by rw [h.1]; exact .refl r₁⟩) fun reader r₂ h₂ => ?_
      obtain ⟨rfl, hbound⟩ := h₂
      refine bind ((preflight_holds hbuffer card.onPlan).mono (fun _ _ h => h)
        fun failed r' h => .refused h) fun comparison r₃ h₃ => ?_
      obtain ⟨hsame, hactions⟩ := h₃
      have haccepted := accepted_of_checks hchecked hbound.distinct
      rw [hbefore] at hactions
      refine (installFiles_holds haccepted hbound hactions (card.same hsame.1 hsame.2)).mono
        (fun result r' h => .complete h.1 h.2) fun result r' h => .broken h
  unfold install
  refine Program.Holds.bind hsteps fun outcome r' h => ?_
  cases outcome with
  | ok result => exact h
  | error result => exact h

end Stages

end Bmx.Update
