import Bmx.Update.Course
import Bmx.Zip.ExtractSpec

/-!
# The sinks of the installer

The layer that gives the archive reader its sinks simulates the sink protocol: while a member is fed
the temporary file holds what was fed, and a committed member has taken the place of its target.
-/

namespace Bmx.Update

open Interaction FatFs Zip SingleFileExtractSink Course SimpleZipHashSink Option

/-- The card beside the extraction sink, by the state of the sink and the milestones passed. -/
inductive SinkCard (course : Course) (done : List PlanStep) (file : ManifestFile) :
    Transaction ZipEntry UInt8 → List Milestone → SingleFileExtractSink → FsState → Prop
  | ready {sink : SingleFileExtractSink} {r : FsState} (card : course.At done none r) :
      SinkCard course done file .idle [] sink r
  | writing {sink : SingleFileExtractSink} {r : FsState} {entry : ZipEntry} {fed absolute : Bytes}
      (hregular : entry.isDirectory = false) (hpath : entry.path = file.path)
      (hsize : entry.size = file.size) (hactive : sink.active = true) (hfile : sink.hasFile = true)
      (card : course.At done none r)
      (hresolve : course.fs.resolve simpleUpdateTemporaryPath = some absolute)
      (hwriting : Writing r absolute fed) :
      SinkCard course done file (.active entry fed) [.begun entry] sink r
  | refusing {sink : SingleFileExtractSink} {r : FsState} {entry : ZipEntry}
      (card : course.Stopped done file r) :
      SinkCard course done file (.refused entry) [.begun entry] sink r
  | abandoned {sink : SingleFileExtractSink} {r : FsState} {entry : ZipEntry}
      (card : course.Stopped done file r) : SinkCard course done file .idle [.begun entry] sink r
  | placed {sink : SingleFileExtractSink} {r : FsState} {entry : ZipEntry}
      (card : course.At (done ++ [.place file]) none r) :
      SinkCard course done file .idle [.begun entry, .committed entry] sink r

/-- The sinks and the card are in the state the protocol monitor is in. -/
structure SinkSim (course : Course) (done : List PlanStep) (file : ManifestFile) (p : Protocol)
    (t : InstallSinks) (r : FsState) : Prop where
  digest : ∀ fed digest, p.digest = some (fed, digest) → sha256Digest fed = some digest
  hash : ∀ fed, p.hash = .active () fed → t.hash.hash.Fed fed
  path : t.sink.expectedPath = file.path
  card : SinkCard course done file p.sink p.log t.sink r

/-- The sink is begun once, for the member of this size. -/
def permitsFile (file : ManifestFile) (log : List Milestone) (entry : ZipEntry) : Prop :=
  log = [] ∧ entry.size = file.size

section Sinks

variable {course : Course} {done rest : List PlanStep} {file : ManifestFile} {hasProgress : Bool}
  {sink : SingleFileExtractSink} {r : FsState}

variable {t : Transaction ZipEntry UInt8} {log : List Milestone} {entry : ZipEntry} {fed absolute : Bytes}
  {expected : ZipExpectedInventory} {wanted : ZipExpectedFile} {p : Protocol}

theorem SinkCard.onPlan (h : SinkCard course done file t log sink r) : course.OnPlan r.volume := by
  cases h with
  | ready card | writing _ _ _ _ _ card | refusing card | abandoned card | placed card => exact card.onPlan

/-- `BeginEntry`. -/
theorem beginEntry_holds (haccepted : course.accepted)
    (hpath : sink.expectedPath = file.path) (hsize : entry.size = file.size)
    (card : course.At done none r) :
    (sink.beginEntry entry).Holds course.contract (fun reply r' =>
      reply.2.expectedPath = file.path ∧ if reply.1 then
        SinkCard course done file (.active entry []) [.begun entry] reply.2 r'
      else SinkCard course done file .idle [] reply.2 r') r := by
  unfold beginEntry
  split
  · exact ⟨hpath, .ready card⟩
  · rename_i hentry
    simp only [not_or, ne_eq, not_not] at hentry
    refine (course.removeTemporary_holds haccepted card).bind fun removed r₁ h₁ => ?_
    split
    · have hcreate : (fileSystem (.createFileFresh simpleUpdateTemporaryPath)).Holds course.contract
          (fun created r₂ => if created then course.At done none r₂ ∧ ∃ absolute,
              course.fs.resolve simpleUpdateTemporaryPath = some absolute ∧ Writing r₂ absolute []
            else course.At done none r₂) r₁ := by
        apply fileSystem_holds
        · exact midway_here (fun _ hv => hv.resolve_right id) h₁.1.onPlan
        · intro created r₂ hafter
          cases created with
          | false => exact h₁.1.same (by rw [show r₂ = r₁ from hafter]) (by rw [show r₂ = r₁ from hafter])
          | true =>
            obtain ⟨hlost, absolute, hresolve, hsets, hwriting⟩ := hafter
            exact ⟨h₁.1.temporary haccepted hresolve hsets hlost, absolute, hresolve, hwriting⟩
      refine hcreate.bind fun created r₂ h₂ => ?_
      cases created with
      | false => exact ⟨hpath, .ready h₂⟩
      | true =>
        obtain ⟨hcard, absolute, hresolve, hwriting⟩ := h₂
        exact ⟨hpath,
          .writing (by simpa using hentry.2.1) (hentry.2.2.trans hpath) hsize rfl rfl hcard hresolve hwriting⟩
    · exact ⟨hpath, .ready h₁.1⟩

/-- `Write`. -/
theorem write_holds {bytes : Bytes} (haccepted : course.accepted) (hpath : sink.expectedPath = file.path)
    (h : SinkCard course done file (.active entry fed) [.begun entry] sink r) :
    (sink.write hasProgress bytes).Holds course.contract (fun reply r' =>
      reply.2.expectedPath = file.path ∧ if reply.1 then
        SinkCard course done file (.active entry (fed ++ bytes)) [.begun entry] reply.2 r'
      else SinkCard course done file (.refused entry) [.begun entry] reply.2 r') r := by
  cases h with
  | @writing _ _ _ _ absolute hregular hentry hsize hactive hfile card hresolve hwriting =>
    obtain ⟨handle, hhandle, -, hfilepath, -⟩ := hwriting.handle
    have hwrite : (fileSystem (.write bytes)).Holds course.contract
        (fun stored r' => course.At done none r' ∧
          (stored = true → Writing r' absolute (fed ++ bytes))) r := by
      apply fileSystem_holds
      · rintro v (rfl | ⟨other, hother, content, hsets⟩)
        · exact card.onPlan
        · obtain rfl : handle = other := some.inj (hhandle.symm.trans hother)
          rw [hfilepath] at hsets
          exact (card.reached.temporary haccepted hresolve hsets).onPlan
      · intro stored r' hafter
        obtain ⟨hlost, hvolume, -, hdone⟩ := hafter
        refine ⟨?_, fun hstored => hdone hstored absolute fed hwriting⟩
        rcases hvolume with hsame | ⟨other, content, hother, hsets⟩
        · exact card.same hsame hlost
        · obtain rfl : handle = other := some.inj (hhandle.symm.trans hother)
          rw [hfilepath] at hsets
          exact card.temporary haccepted hresolve hsets hlost
    unfold write
    rw [if_neg (by simp [hactive, hfile])]
    refine hwrite.bind fun stored r₁ h₁ => ?_
    obtain ⟨hcard, hdone⟩ := h₁
    split
    · rename_i hstored
      refine (report_holds hcard.onPlan).bind fun going r₂ h₂ => ?_
      obtain rfl : r₂ = r₁ := h₂
      refine ⟨hpath, ?_⟩
      cases going with
      | true => exact .writing hregular hentry hsize hactive hfile hcard hresolve (hdone hstored)
      | false => exact .refusing (.inl hcard)
    · exact ⟨hpath, .refusing (.inl hcard)⟩

theorem rename_holds (haccepted : course.accepted)
    (hplan : course.plan = done ++ .place file :: rest) (card : course.At done none r)
    (hresolve : course.fs.resolve simpleUpdateTemporaryPath = some absolute)
    (hstored : r.volume.lookup absolute = .file fed) (his : file.Is fed) :
    (fileSystem (.rename simpleUpdateTemporaryPath file.path true)).Holds course.contract
      (fun renamed r' => if renamed then course.At (done ++ [.place file]) none r'
        else course.Stopped done file r') r := by
  have hcontent : ∀ {source target content : Bytes} {v : Volume},
      course.fs.resolve simpleUpdateTemporaryPath = some source →
      course.fs.resolve file.path = some target → r.volume.lookup source = .file content →
      Moves r.volume v source target content → course.Reached (done ++ [.place file]) none v := by
    intro source target content v hsource htarget hnode hmoves
    obtain rfl : absolute = source := some.inj (hresolve.symm.trans hsource)
    obtain rfl : fed = content := Node.file.inj (hstored.symm.trans hnode)
    exact card.reached.place haccepted hplan hsource htarget hmoves his
  apply fileSystem_holds
  · rintro v (rfl | ⟨source, target, hsource, htarget, -, -, hsets | ⟨content, hnode, hmoves⟩⟩)
    · exact card.onPlan
    · exact (card.reached.makeRoom haccepted hplan htarget hsets).onPlan
    · exact (hcontent hsource htarget hnode hmoves).onPlan
  · intro renamed r' hafter
    obtain ⟨-, ⟨rfl, hfailed⟩ | ⟨source, target, hsource, htarget, -, houtcome⟩⟩ := hafter
    · rw [if_neg (by rw [hfailed]; simp)]
      exact .inl card
    · cases houtcome with
      | untouched hvolume hlost => exact .inl (card.same hvolume hlost)
      | lost _ hvolume hlost =>
        refine .inr (.inl ⟨card.reached.makeRoom haccepted hplan htarget hvolume, ?_⟩)
        rw [hlost, card.lost, bind_some, htarget]
        rfl
      | moved _ content hnode _ hmoves hlost =>
        have hplaced : course.At (done ++ [.place file]) none r' :=
          ⟨hcontent hsource htarget hnode hmoves, hlost.trans card.lost⟩
        split
        · exact hplaced
        · exact .inr (.inr hplaced)

theorem publish_holds {stored : Bool} (haccepted : course.accepted)
    (hplan : course.plan = done ++ .place file :: rest) (hpath : sink.expectedPath = file.path)
    (card : course.At done none r)
    (hresolve : course.fs.resolve simpleUpdateTemporaryPath = some absolute)
    (hstored : r.volume.lookup absolute = .file fed) (his : file.Is fed) :
    (sink.publish stored).Holds course.contract
      (fun published r' => if published then course.At (done ++ [.place file]) none r'
        else course.Stopped done file r') r := by
  unfold publish
  split
  · rw [hpath]
    refine (rename_holds haccepted hplan card hresolve hstored his).bind fun renamed r₁ h₁ => ?_
    cases renamed with
    | false => exact h₁
    | true =>
      apply fileSystem_holds
      · exact midway_here (fun _ hv => hv.resolve_right id) h₁.onPlan
      · intro synced r₂ hafter
        obtain rfl : r₂ = r₁ := hafter.1
        split
        · exact h₁
        · exact .inr (.inr h₁)
  · exact .inl card

/-- `CommitEntry`, of a member that is the manifest's file. -/
theorem commitEntry_holds (haccepted : course.accepted)
    (hplan : course.plan = done ++ .place file :: rest) (hpath : sink.expectedPath = file.path)
    (his : file.Is fed)
    (h : SinkCard course done file (.active entry fed) [.begun entry] sink r) :
    (sink.commitEntry hasProgress entry).Holds course.contract (fun reply r' =>
      reply.2.expectedPath = file.path ∧ if reply.1 then
        SinkCard course done file .idle [.begun entry, .committed entry] reply.2 r'
      else SinkCard course done file (.refused entry) [.begun entry] reply.2 r') r := by
  cases h with
  | @writing _ _ _ _ absolute hregular hentry hsize hactive hfile card hresolve hwriting =>
    have hsync : (fileSystem .sync).Holds course.contract (fun _ r' => r' = r) r := by
      apply fileSystem_holds
      · exact midway_here (fun _ hv => hv.resolve_right id) card.onPlan
      · intro _ _ hafter
        exact hafter
    unfold commitEntry
    rw [if_neg (by simp [hactive, hfile, hentry, hpath])]
    refine hsync.bind fun synced r₁ h₁ => ?_
    obtain rfl : r₁ = r := h₁
    refine (closeWrite_holds card).bind fun closed r₂ h₂ => ?_
    obtain ⟨hcard, hvolume⟩ := h₂
    have hstored : r₂.volume.lookup absolute = .file fed := by
      rw [hvolume]
      exact hwriting.stored
    refine (publish_holds haccepted hplan (by exact hpath) hcard hresolve hstored his).bind
      fun published r₃ h₃ => ?_
    cases published with
    | true =>
      refine (report_holds h₃.onPlan).bind fun going r₄ h₄ => ?_
      obtain rfl : r₄ = r₃ := h₄
      refine ⟨hpath, ?_⟩
      cases going with
      | true => exact .placed h₃
      | false => exact .refusing (.inr (.inr h₃))
    | false =>
      refine (stopped_holds (fun _ _ hat => (course.removeTemporary_holds haccepted hat).mono
        fun _ _ hleft => hleft.1) h₃).bind fun removed r₄ h₄ => ?_
      exact ⟨hpath, .refusing h₄⟩

/-- `AbortEntry`. -/
theorem abortEntry_holds (entry : ZipEntry) (haccepted : course.accepted)
    (hpath : sink.expectedPath = file.path) (card : course.Stopped done file r) :
    sink.abortEntry.Holds course.contract (fun sink' r' => sink'.expectedPath = file.path ∧
      SinkCard course done file .idle [.begun entry] sink' r') r := by
  have hclose : ∀ done hole, course.At done hole r →
      sink.closeFile.Holds course.contract (fun _ r' => course.At done hole r') r := by
    intro done hole hat
    unfold closeFile
    split
    · refine (closeWrite_holds hat).bind fun _ r' h' => ?_
      exact h'.1
    · exact hat
  unfold abortEntry
  refine (stopped_holds hclose card).bind fun _ r₁ h₁ => ?_
  refine (stopped_holds (fun _ _ hat => (course.removeTemporary_holds haccepted hat).mono
    fun _ _ hleft => hleft.1) h₁).bind fun _ r₂ h₂ => ?_
  exact ⟨hpath, .abandoned h₂⟩

/-! ### The layer -/

theorem sinkCard_active (h : SinkCard course done file (.active entry fed) log sink r) : log = [.begun entry] := by
  cases h
  rfl

theorem sinkCard_open (h : SinkCard course done file t log sink r) (hopen : t.IsOpen entry) :
    log = [.begun entry] ∧ course.Stopped done file r := by
  rcases hopen with ⟨fed, rfl⟩ | rfl
  · cases h with
    | writing _ _ _ _ _ card => exact ⟨rfl, .inl card⟩
  · cases h with
    | refusing card => exact ⟨rfl, card⟩

/-- What is fed to the sink when it may commit is the manifest's file. -/
theorem SinkSim.verified {t : InstallSinks} (h : SinkSim course done file p t r)
    (hwanted : findExpectedFile expected file.path = some wanted)
    (hdigest : wanted.sha256 = some file.sha256) (hverified : p.Verified expected entry) :
    ∃ fed, p.sink = .active entry fed ∧ file.Is fed := by
  obtain ⟨fed, hactive, hlength, -, hreported⟩ := hverified
  refine ⟨fed, hactive, ?_⟩
  have hcard := h.card
  rw [hactive] at hcard
  rw [sinkCard_active hcard] at hcard
  cases hcard with
  | writing hregular hpath hsize =>
    rw [hpath] at hreported
    have hknown := hreported hregular wanted file.sha256 hwanted hdigest
    exact ⟨hlength.trans hsize, h.digest fed file.sha256 hknown⟩

/-- An exchange the protocol does not see, with the sinks and the card left alone. -/
theorem outside_sim {op : OutsideOp} {t : InstallSinks}
    {Q : op.Answer × InstallSinks → FsState → Prop} (h : SinkSim course done file p t r)
    (hQ : ∀ answer, Q (answer, t) r) :
    (outside op >>= fun answer => pure (answer, t) : Program installSignature _).Holds
      course.contract Q r := by
  refine (outside_holds h.card.onPlan).bind fun answer r₁ h₁ => ?_
  obtain rfl : r₁ = r := h₁
  exact hQ answer

/-- The layer simulates the protocol: `SinkSim` is kept by every call the reader may make. -/
theorem sinkLayer_holds (haccepted : course.accepted) (hplan : course.plan = done ++ .place file :: rest)
    (hwanted : findExpectedFile expected file.path = some wanted)
    (hdigest : wanted.sha256 = some file.sha256) (op : ZipOp) (p : Protocol) (t : InstallSinks)
    (r : FsState) (hallows : Protocol.Allows expected (permitsFile file) op p)
    (h : SinkSim course done file p t r) :
    (sinkLayer hasProgress op t).Holds course.contract (fun reply r' =>
      ∃ p', p' = p.observe ⟨op, reply.1⟩ ∧ SinkSim course done file p' reply.2 r') r := by
  cases op with
  | getSize | readAt offset count | inflateInit
  | inflate input capacity hasMoreInput => exact outside_sim h fun answer => ⟨_, rfl, h⟩
  | progress hook produced total => exact ⟨_, rfl, h⟩
  | hashBegin path size =>
    refine ⟨_, rfl, h.digest, fun fed hfed => ?_, h.path, h.card⟩
    change p.hash.next (.start () (t.hash.beginFile size).1) = _ at hfed
    rw [show p.hash = .idle from hallows] at hfed
    unfold beginFile at hfed ⊢
    split at hfed
    · cases hfed
    · rename_i hidle
      obtain rfl : [] = fed := (Transaction.active.inj hfed).2
      change (t.hash.beginFile size).2.hash.Fed []
      rw [beginFile, if_neg hidle]
      exact Sha256.fed_reset
  | hashUpdate bytes =>
    obtain ⟨before, hactive⟩ := hallows
    refine ⟨_, rfl, h.digest, fun fed hfed => ?_, h.path, h.card⟩
    change p.hash.next (.feed bytes (t.hash.update bytes).1) = _ at hfed
    change (t.hash.update bytes).2.hash.Fed fed
    rw [hactive] at hfed
    unfold update at hfed ⊢
    split at hfed
    · cases hfed
    · rename_i hroom
      rw [if_neg hroom]
      split at hfed
      · cases hfed
      · rename_i hash hupdate
        obtain rfl : before ++ bytes = fed := (Transaction.active.inj hfed).2
        exact (h.hash before hactive).update hupdate
  | hashFinish =>
    obtain ⟨before, hactive⟩ := hallows
    refine ⟨_, rfl, fun fed digest hknown => ?_, fun fed hfed => ?_, h.path, h.card⟩
    · change p.noteDigest ⟨.hashFinish, t.hash.finishFile.1⟩ = _ at hknown
      cases hfinish : t.hash.finishFile.1 with
      | none =>
        rw [hfinish] at hknown
        exact h.digest fed digest hknown
      | some reported =>
        rw [hfinish] at hknown
        simp only [Protocol.noteDigest, hactive, some.injEq, Prod.mk.injEq] at hknown
        obtain ⟨rfl, rfl⟩ := hknown
        unfold finishFile at hfinish
        split at hfinish
        · cases hfinish
        · exact (h.hash _ hactive).final hfinish
    · change p.hash.next (.finish () t.hash.finishFile.1.isSome) = _ at hfed
      rw [hactive] at hfed
      generalize t.hash.finishFile.1.isSome = accepted at hfed
      cases accepted with
      | true => cases hfed
      | false => cases hfed
  | hashAbort =>
    refine ⟨_, rfl, h.digest, fun fed hfed => ?_, h.path, h.card⟩
    obtain ⟨before, hactive⟩ | hrefused := hallows
    all_goals
      change p.hash.next (.abort ()) = _ at hfed
      cases hfed
  | sinkBegin entry =>
    obtain ⟨hidle, hlog, hsize⟩ := hallows
    have hready := h.card
    rw [hidle, hlog] at hready
    cases hready with
    | ready card =>
      refine (beginEntry_holds haccepted h.path hsize card).bind fun reply r' hreply => ?_
      obtain ⟨hpath, hcard⟩ := hreply
      refine ⟨_, rfl, h.digest, h.hash, hpath, ?_⟩
      obtain ⟨accepted, sink'⟩ := reply
      cases accepted with
      | true =>
        change SinkCard course done file _ (p.log ++ [.begun entry]) sink' r'
        rw [hlog]
        exact hcard
      | false =>
        change SinkCard course done file p.sink p.log sink' r'
        rw [hidle, hlog]
        exact hcard
  | sinkWrite bytes =>
    obtain ⟨entry, fed, hactive⟩ := hallows
    have hcard := h.card
    rw [hactive] at hcard
    have hlog := sinkCard_active hcard
    rw [hlog] at hcard
    refine (write_holds haccepted h.path hcard).bind fun reply r' hreply => ?_
    obtain ⟨hpath, hcard'⟩ := hreply
    refine ⟨_, rfl, h.digest, h.hash, hpath, ?_⟩
    change SinkCard course done file (p.sink.next (.feed bytes reply.1)) p.log reply.2 r'
    rw [hactive, hlog]
    obtain ⟨accepted, sink'⟩ := reply
    cases accepted with
    | true => exact hcard'
    | false => exact hcard'
  | sinkCommit entry =>
    obtain ⟨fed, hactive, his⟩ := h.verified hwanted hdigest hallows
    have hcard := h.card
    rw [hactive] at hcard
    have hlog := sinkCard_active hcard
    rw [hlog] at hcard
    refine (commitEntry_holds haccepted hplan h.path his hcard).bind fun reply r' hreply => ?_
    obtain ⟨hpath, hcard'⟩ := hreply
    refine ⟨_, rfl, h.digest, h.hash, hpath, ?_⟩
    obtain ⟨accepted, sink'⟩ := reply
    cases accepted with
    | true =>
      change SinkCard course done file (p.sink.next (.finish entry true))
        (p.log ++ [.committed entry]) sink' r'
      rw [hactive, hlog]
      exact hcard'
    | false =>
      change SinkCard course done file (p.sink.next (.finish entry false)) p.log sink' r'
      rw [hactive, hlog]
      exact hcard'
  | sinkAbort entry =>
    obtain ⟨hlog, hstopped⟩ := sinkCard_open h.card hallows
    refine (abortEntry_holds entry haccepted h.path hstopped).bind fun sink' r' hreply => ?_
    obtain ⟨hpath, hcard⟩ := hreply
    refine ⟨_, rfl, h.digest, h.hash, hpath, ?_⟩
    change SinkCard course done file (p.sink.next (.abort entry)) p.log sink' r'
    rw [hlog]
    rcases hallows with ⟨fed, hactive⟩ | hrefused
    · rw [hactive]
      exact hcard
    · rw [hrefused]
      exact hcard

end Sinks

end Bmx.Update
