import Bmx.Update.Plan

/-!
# The course of an installation

The states of the card that a plan allows between two calls of the file system, and how each call
moves from one to the next.
-/

namespace Bmx.Update

open Interaction FatFs

/-- A plan to be carried out on a card, once it is accepted. -/
structure Course where
  fs : FatFsUpdateFileSystem
  directories : List Bytes
  before : Volume
  plan : List PlanStep
  accepted : Prop
  sound : accepted → Sound plan

namespace Course

/-- The card is where these first steps leave it; only the target of the next one may be missing.
Before the plan is accepted nothing changes. -/
structure Reached (course : Course) (done : List PlanStep) (hole : Option Bytes) (v : Volume) :
    Prop where
  accepted : course.accepted ∨ (done = [] ∧ hole = none ∧ v = course.before)
  next : ∃ rest, course.plan = done ++ rest ∧ ∀ path, hole = some path →
    ∃ file later, rest = .place file :: later ∧ path = file.path
  carried : Carried course.fs course.directories course.before done hole v

/-- The states in which an installation may be interrupted. -/
def OnPlan (course : Course) (v : Volume) : Prop := ∃ done hole, course.Reached done hole v

/-- The card and the `f_rename` calls that failed so far: one for the hole, if there is one. -/
structure At (course : Course) (done : List PlanStep) (hole : Option Bytes) (r : FsState) :
    Prop where
  reached : course.Reached done hole r.volume
  lost : r.lost = (hole.bind course.fs.resolve).toList

variable {course : Course} {done rest : List PlanStep} {hole : Option Bytes} {v v' : Volume}
  {r r' : FsState}

theorem Reached.onPlan (h : course.Reached done hole v) : course.OnPlan v := ⟨done, hole, h⟩

theorem At.onPlan (h : course.At done hole r) : course.OnPlan r.volume := h.reached.onPlan

theorem reached_start (course : Course) : course.Reached [] none course.before where
  accepted := .inr ⟨rfl, rfl, rfl⟩
  next := ⟨course.plan, rfl, fun _ h => by cases h⟩
  carried := .start _ _ _

variable {absolute path : Bytes} {node : FatFs.Node} {file : ManifestFile} {op : FileSystemOp}

theorem Reached.temporary (haccepted : course.accepted) (h : course.Reached done hole v)
    (hresolve : course.fs.resolve simpleUpdateTemporaryPath = some absolute)
    (hsets : Sets v v' absolute node) : course.Reached done hole v' where
  accepted := .inl haccepted
  next := h.next
  carried := by
    obtain ⟨rest, hplan, hhole⟩ := h.next
    have htemporary := (course.sound haccepted).temporary
    rw [hplan] at htemporary
    refine h.carried.temporary hresolve hsets ?_ ?_
    · intro step hstep
      exact htemporary step (List.mem_append_left _ hstep)
    · intro path hpath
      obtain ⟨file, later, rfl, rfl⟩ := hhole path hpath
      exact htemporary (.place file) (List.mem_append_right _ List.mem_cons_self)

theorem Reached.directory (haccepted : course.accepted) (h : course.Reached [] none v)
    (hpath : path ∈ course.directories) (hresolve : course.fs.resolve path = some absolute)
    (hnothing : v.lookup absolute = .missing) (hsets : Sets v v' absolute .directory) :
    course.Reached [] none v' where
  accepted := .inl haccepted
  next := h.next
  carried := h.carried.directory hpath hresolve hnothing hsets

theorem Reached.makeRoom (haccepted : course.accepted)
    (hplan : course.plan = done ++ .place file :: rest) (h : course.Reached done none v)
    (hresolve : course.fs.resolve file.path = some absolute) (hsets : Sets v v' absolute .missing) :
    course.Reached done (some file.path) v' where
  accepted := .inl haccepted
  next := ⟨_, hplan, fun _ hpath => ⟨file, rest, rfl, (Option.some.inj hpath).symm⟩⟩
  carried := by
    have hsound := course.sound haccepted
    rw [hplan] at hsound
    exact h.carried.makeRoom hresolve hsets fun step hstep => (hsound.place step hstep).1

theorem Reached.place {source target content : Bytes}
    (haccepted : course.accepted) (hplan : course.plan = done ++ .place file :: rest)
    (h : course.Reached done none v) (hsource : course.fs.resolve simpleUpdateTemporaryPath = some source)
    (htarget : course.fs.resolve file.path = some target) (hmoves : Moves v v' source target content)
    (his : file.Is content) : course.Reached (done ++ [.place file]) none v' where
  accepted := .inl haccepted
  next := ⟨rest, by rw [hplan, List.append_assoc, List.singleton_append], fun _ h => by cases h⟩
  carried := by
    have hsound := course.sound haccepted
    rw [hplan] at hsound
    exact h.carried.place hsource htarget hmoves his hsound.place

theorem Reached.remove (haccepted : course.accepted)
    (hplan : course.plan = done ++ .remove path :: rest) (h : course.Reached done none v)
    (hresolve : course.fs.resolve path = some absolute) (hsets : Sets v v' absolute .missing) :
    course.Reached (done ++ [.remove path]) none v' where
  accepted := .inl haccepted
  next := ⟨rest, by rw [hplan, List.append_assoc, List.singleton_append], fun _ h => by cases h⟩
  carried := by
    have hsound := course.sound haccepted
    rw [hplan] at hsound
    exact h.carried.remove hresolve hsets hsound.remove

/-- A call that only touched the temporary file leaves the course where it was. -/
theorem At.temporary (haccepted : course.accepted) (h : course.At done hole r)
    (hresolve : course.fs.resolve simpleUpdateTemporaryPath = some absolute)
    (hsets : Sets r.volume r'.volume absolute node) (hlost : r'.lost = r.lost) :
    course.At done hole r' where
  reached := h.reached.temporary haccepted hresolve hsets
  lost := hlost.trans h.lost

theorem At.same (h : course.At done hole r) (hvolume : r'.volume = r.volume)
    (hlost : r'.lost = r.lost) : course.At done hole r' where
  reached := hvolume ▸ h.reached
  lost := hlost.trans h.lost

/-! ### Calls of the file system -/

/-- The installer's surroundings on this course: the card may be interrupted only on plan. -/
def contract (course : Course) : Contract installSignature FsState :=
  (fileSystemContract course.fs course.OnPlan).beside outsideSignature fun r => course.OnPlan r.volume

theorem fileSystem_holds {Q : op.Answer → FsState → Prop} (hpre : ∀ v, Midway course.fs op r v → course.OnPlan v)
    (hpost : ∀ answer r', After course.fs op r answer r' → Q answer r') :
    (fileSystem op).Holds course.contract Q r := ⟨hpre, hpost⟩

theorem outside_holds {op : OutsideOp} (h : course.OnPlan r.volume) :
    (outside op).Holds course.contract (fun _ r' => r' = r) r := ⟨h, fun _ _ h => h⟩

theorem report_holds {hasProgress : Bool} {phase : SimpleUpdatePhase} {completed total : Nat}
    (h : course.OnPlan r.volume) :
    (report hasProgress phase completed total).Holds course.contract (fun _ r' => r' = r) r := by
  unfold report
  split
  · exact outside_holds h
  · exact rfl

theorem midway_here (hop : ∀ v, Midway course.fs op r v → v = r.volume)
    (h : course.OnPlan r.volume) : ∀ v, Midway course.fs op r v → course.OnPlan v := by
  intro v hv
  rw [hop v hv]
  exact h

theorem removeTemporary_holds (haccepted : course.accepted) (h : course.At done hole r) :
    (fileSystem (.removeFile simpleUpdateTemporaryPath)).Holds course.contract
      (fun _ r' => course.At done hole r' ∧ r'.handles = r.handles) r := by
  apply fileSystem_holds
  · exact midway_here (fun _ hv => hv.resolve_right id) h.onPlan
  · intro answer r' hafter
    obtain ⟨hlost, hhandles, hkept, hgone⟩ := hafter
    refine ⟨?_, hhandles⟩
    cases answer with
    | false => exact h.same (hkept rfl) hlost
    | true =>
      obtain ⟨absolute, hresolve, -, hsets⟩ := hgone rfl
      exact h.temporary haccepted hresolve hsets hlost

theorem closeWrite_holds (h : course.At done hole r) :
    (fileSystem .closeWrite).Holds course.contract (fun _ r' => course.At done hole r' ∧
      r'.volume = r.volume) r := by
  apply fileSystem_holds
  · exact midway_here (fun _ hv => hv.resolve_right id) h.onPlan
  · intro answer r' hafter
    exact ⟨h.same hafter.1 hafter.2.1, hafter.1⟩

/-- Where a replacement stands after it failed: the target as it was, missing, or replaced. -/
def Stopped (course : Course) (done : List PlanStep) (file : ManifestFile) (r : FsState) : Prop :=
  course.At done none r ∨ course.At done (some file.path) r ∨
    course.At (done ++ [.place file]) none r

theorem Stopped.onPlan (h : course.Stopped done file r) : course.OnPlan r.volume := by
  rcases h with h | h | h
  · exact h.onPlan
  · exact h.onPlan
  · exact h.onPlan

/-- What keeps a card where it is on its course keeps a stopped replacement stopped. -/
theorem stopped_holds {α : Type} {p : Program installSignature α}
    (hp : ∀ done hole, course.At done hole r →
      p.Holds course.contract (fun _ r' => course.At done hole r') r)
    (h : course.Stopped done file r) : p.Holds course.contract (fun _ r' => course.Stopped done file r') r := by
  rcases h with h | h | h
  · exact (hp _ _ h).mono fun _ _ h => .inl h
  · exact (hp _ _ h).mono fun _ _ h => .inr (.inl h)
  · exact (hp _ _ h).mono fun _ _ h => .inr (.inr h)

end Course

end Bmx.Update
