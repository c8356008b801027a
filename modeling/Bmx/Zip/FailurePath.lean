import Bmx.Zip.ContentsCache

/-!
# The path of the first failure

A reader keeps the name of the entry at which `Open` has failed until another name takes its place. `Open` forgets
everything else that an earlier call has established, but not this name.
-/

namespace Bmx.Zip

open Interaction Update List

/-- A call of `Open`: the reader it was made on, what was exchanged, and how it ended. -/
structure OpenCall where
  reader : ZipReader
  events : List (Event zipSignature)
  status : ZipStatus

def OpenCall.FailedAt (call : OpenCall) (path : Bytes) : Prop :=
  call.status ≠ .ok ∧ ∃ offset rawName, Answered call.events offset rawName ∧ NameNoted rawName path

/-- The calls of `Open` with any sources, and the reader after them. Its modes are set at any time; to close an
archive closes the source, and leaves the reader alone. -/
inductive OpenCalls : List OpenCall → ZipReader → Prop
  | initial : OpenCalls [] .initial
  | configure {past : List OpenCall} {reader : ZipReader} (settings : ZipSettings) (hpast : OpenCalls past reader) :
      OpenCalls past (reader.configure settings)
  | close {past : List OpenCall} {reader : ZipReader} (hpast : OpenCalls past reader) : OpenCalls past reader
  | open {past : List OpenCall} {reader : ZipReader} {entryCapacity : Nat} {limits : ZipLimits} {hasProgress : Bool}
      {events : List (Event zipSignature)} {result : ZipStatus × ZipReader} (hpast : OpenCalls past reader)
      (hrun : AnyRun (reader.open entryCapacity limits hasProgress) events result) :
      OpenCalls (past ++ [⟨reader, events, result.1⟩]) result.2

/-- The path that is reported is that of an entry at which the latest `Open` has failed. -/
def Reported (past : List OpenCall) (reader : ZipReader) : Prop :=
  reader.firstFailurePath ≠ [] → ∃ call, past.getLast? = some call ∧ call.FailedAt reader.firstFailurePath

section Calls

variable {past : List OpenCall} {reader : ZipReader} {entryCapacity : Nat} {limits : ZipLimits}
  {hasProgress : Bool} {events : List (Event zipSignature)} {result : ZipStatus × ZipReader}

/-- `Open` leaves the path of an earlier failure, unless it fails at an entry itself. -/
theorem open_failurePath (hrun : AnyRun (reader.open entryCapacity limits hasProgress) events result) :
    result.2.firstFailurePath = reader.firstFailurePath ∨
      (OpenCall.mk reader events result.1).FailedAt result.2.firstFailurePath := by
  have hends : (reader.open entryCapacity limits hasProgress).Holds (historyContract zipSignature ReadsArchive)
      (fun result now => result.2.firstFailurePath = reader.firstFailurePath ∨
        (OpenCall.mk reader now result.1).FailedAt result.2.firstFailurePath) [] := by
    unfold ZipReader.open
    split
    · exact .inl rfl
    · refine Program.Holds.bind opens_openInventory fun result now hresult => ?_
      cases result with
      | ok inventory => exact .inl rfl
      | error failure =>
        cases hnote : failure.note with
        | none =>
          refine .inl ?_
          change failure.note.getD reader.firstFailurePath = reader.firstFailurePath
          rw [hnote, Option.getD_none]
        | some note =>
          refine .inr ⟨hresult.1, ?_⟩
          change ∃ offset rawName, Answered now offset rawName ∧
            NameNoted rawName (failure.note.getD reader.firstFailurePath)
          rw [hnote, Option.getD_some]
          exact hresult.2 note hnote
  exact hrun.holds hends

/-- An `Open` that succeeds still reports the path of an earlier one. -/
theorem not_reported (hrun : AnyRun (reader.open entryCapacity limits hasProgress) events result)
    (hstale : reader.firstFailurePath ≠ []) (hok : result.1 = .ok) :
    ¬ Reported (past ++ [⟨reader, events, result.1⟩]) result.2 := by
  intro hreported
  have hkept : result.2.firstFailurePath = reader.firstFailurePath :=
    (open_failurePath hrun).resolve_right fun hfailed => hfailed.1 hok
  obtain ⟨call, hcall, hfailed⟩ := hreported (hkept ▸ hstale)
  rw [getLast?_concat, Option.some.injEq] at hcall
  exact hfailed.1 (hcall ▸ hok)

/-- As long as every `Open` finds a reader without a failure path, the path that is reported belongs to the latest
one. An `Open` that succeeds on a reader with a path reports that path all the same. -/
theorem firstFailurePath_reported (hrun : OpenCalls past reader) :
    ((∀ call ∈ past, call.reader.firstFailurePath = []) → Reported past reader) ∧
      ∀ call, past.getLast? = some call → call.reader.firstFailurePath ≠ [] → call.status = .ok →
        ¬ Reported past reader := by
  induction hrun with
  | initial => exact ⟨fun _ hpath => absurd rfl hpath, fun _ hlast => by cases hlast⟩
  | configure settings _ ih => exact ih
  | close _ ih => exact ih
  | @«open» past reader _ _ _ events result hpast hrun _ =>
    refine ⟨fun hfresh hpath => ?_, fun call hlast hstale hok hreported => ?_⟩
    · refine ⟨⟨reader, events, result.1⟩, getLast?_concat, ?_⟩
      rcases open_failurePath hrun with hkept | hfailed
      · have hempty := hfresh ⟨reader, events, result.1⟩ (mem_append_right _ mem_cons_self)
        exact absurd (hkept.trans hempty) hpath
      · exact hfailed
    · rw [getLast?_concat, Option.some.injEq] at hlast
      subst hlast
      exact not_reported hrun hstale hok hreported

end Calls

/-! ### A name that is refused -/

/-- An archive with a name that no path policy accepts. -/
def refusedOpening : List (Event zipSignature) × (ZipStatus × ZipReader) × Unit :=
  (ZipReader.initial.open 8 {} false).run (served (storedArchive [⟨ascii "A:", false, ascii "x"⟩])) ()

theorem refusedOpening_calls : OpenCalls [⟨.initial, refusedOpening.1, refusedOpening.2.1.1⟩] refusedOpening.2.1.2 :=
  have hrun : AnyRun (ZipReader.initial.open 8 {} false) refusedOpening.1 refusedOpening.2.1 := run_anyRun _ _ _
  .open .initial hrun

theorem firstFailurePath_reported_refusedOpening :
    refusedOpening.2.1.2.firstFailurePath = ascii "A:" ∧
      Reported [⟨.initial, refusedOpening.1, refusedOpening.2.1.1⟩] refusedOpening.2.1.2 :=
  ⟨by decide +kernel, (firstFailurePath_reported refusedOpening_calls).1 fun call hcall => by
    rw [mem_singleton.1 hcall]
    rfl⟩

/-- An archive that is opened after it, without a failure. -/
def nextOpening : List (Event zipSignature) × (ZipStatus × ZipReader) × Unit :=
  (refusedOpening.2.1.2.open 8 {} false).run (served sampleArchive) ()

theorem firstFailurePath_stale :
    ¬ ∀ (past : List OpenCall) (reader : ZipReader), OpenCalls past reader → Reported past reader := by
  intro h
  have hok : nextOpening.2.1.1 = .ok := by decide +kernel
  have hpath : refusedOpening.2.1.2.firstFailurePath = ascii "A:" := by decide +kernel
  have hrun : AnyRun (refusedOpening.2.1.2.open 8 {} false) nextOpening.1 nextOpening.2.1 := run_anyRun _ _ _
  exact not_reported hrun (by rw [hpath]; decide) hok (h _ _ (.open refusedOpening_calls hrun))

end Bmx.Zip
