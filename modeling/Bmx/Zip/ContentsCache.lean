import Bmx.Zip.InventorySpec

/-!
# What the reader knows of its contents

The calls a reader is used with, in any order. It takes contents for checked only when a call since
the archive was opened has vouched for them and nothing has failed since.
-/

namespace Bmx.Zip

open Interaction Update Fallible List

/-! ### Calls -/

/-- The modes and the workspace that a reader is set to. -/
structure ZipSettings where
  hasWorkspace : Bool
  lenientExtraFields : Bool
  lenientPaths : Bool
  lenientArchive : Bool
  lenientRatio : Bool

/-- `SetWorkspace` and the setters of the modes. -/
def ZipReader.configure (reader : ZipReader) (settings : ZipSettings) : ZipReader :=
  { reader with
    hasWorkspace := settings.hasWorkspace
    lenientExtraFields := settings.lenientExtraFields
    lenientPaths := settings.lenientPaths
    lenientArchive := settings.lenientArchive
    lenientRatio := settings.lenientRatio }

inductive ZipCall
  | configure (settings : ZipSettings)
  | open (entryCapacity : Nat) (limits : ZipLimits) (hasProgress : Bool)
  | validateContents (expected : ZipExpectedInventory) (hasHash : Bool)
  | bindAuthenticatedInventory (expected : ZipExpectedInventory)
  | extractOne (path : Bytes) (expected : ZipExpectedInventory) (hasSink hasHash : Bool)
  | extractOneSinglePass (path : Bytes) (expected : ZipExpectedInventory)
      (hasSink hasVerifyProgress hasStreamProgress : Bool)
  | extractAll (expected : ZipExpectedInventory) (hasSink hasHash : Bool)

namespace ZipCall

def action : ZipCall → ZipReader → ZipAction
  | configure settings, reader => pure (.ok, reader.configure settings)
  | .open entryCapacity limits hasProgress, reader => reader.open entryCapacity limits hasProgress
  | validateContents expected hasHash, reader => reader.validateContents expected hasHash
  | bindAuthenticatedInventory expected, reader => reader.bindAuthenticatedInventory expected
  | extractOne path expected hasSink hasHash, reader => reader.extractOne path expected hasSink hasHash
  | extractOneSinglePass path expected hasSink hasVerifyProgress hasStreamProgress, reader =>
    reader.extractOneSinglePass path expected hasSink hasVerifyProgress hasStreamProgress
  | extractAll expected hasSink hasHash, reader => reader.extractAll expected hasSink hasHash

/-- The call, when it ends well, has checked the complete contents against the inventory. -/
def Validates (call : ZipCall) (expected : ZipExpectedInventory) : Prop :=
  (∃ hasHash, call = validateContents expected hasHash) ∨
    ∃ hasSink hasHash, call = extractAll expected hasSink hasHash

/-- The call, when it ends well, vouches for the contents: it has checked them, or its caller has
authenticated the archive. -/
def Vouches (call : ZipCall) (expected : ZipExpectedInventory) : Prop :=
  call.Validates expected ∨ call = bindAuthenticatedInventory expected

/-- An extraction without a sink is refused before anything is looked at. -/
def Refused : ZipCall → Prop
  | extractOne _ _ hasSink _ => hasSink = false
  | extractOneSinglePass _ _ hasSink _ _ => hasSink = false
  | _ => False

/-- The call leaves what is known of the contents alone. -/
def Quiet (call : ZipCall) (status : ZipStatus) : Prop :=
  (∀ entryCapacity limits hasProgress, call ≠ .open entryCapacity limits hasProgress) ∧
    (status = .ok ∨ call.Refused)

end ZipCall

/-- The calls made on a reader, with how they ended. -/
abbrev ZipHistory := List (ZipCall × ZipStatus)

/-- A reader after calls that the source, the sinks and the hooks may have answered in any way. -/
inductive ZipRun : ZipHistory → ZipReader → Prop
  | initial : ZipRun [] .initial
  | call {past : ZipHistory} {reader : ZipReader} (call : ZipCall) {events : List (Event zipSignature)}
      {result : ZipStatus × ZipReader} (hpast : ZipRun past reader)
      (hrun : AnyRun (call.action reader) events result) : ZipRun (past ++ [(call, result.1)]) result.2

/-- A call since the last opening has vouched for the contents, and none has failed since. -/
def Vouched (past : ZipHistory) (expected : ZipExpectedInventory) : Prop :=
  ∃ before call after, past = before ++ (call, .ok) :: after ∧ call.Vouches expected ∧
    ∀ later ∈ after, later.1.Quiet later.2

variable {past : ZipHistory} {expected : ZipExpectedInventory} {call : ZipCall} {reader reader' : ZipReader}
  {result : ZipStatus × ZipReader}

theorem Vouched.later {status : ZipStatus} (h : Vouched past expected) (hquiet : call.Quiet status) :
    Vouched (past ++ [(call, status)]) expected := by
  obtain ⟨before, vouching, after, rfl, hvouches, hafter⟩ := h
  refine ⟨before, vouching, after ++ [(call, status)], by simp, hvouches, fun later hlater => ?_⟩
  rcases mem_append.1 hlater with hlater | hlater
  · exact hafter later hlater
  · obtain rfl := mem_singleton.1 hlater
    exact hquiet

theorem vouched_now (hvouches : call.Vouches expected) : Vouched (past ++ [(call, .ok)]) expected :=
  ⟨past, call, [], rfl, hvouches, fun later hlater => by cases hlater⟩

/-! ### What one call does -/

/-- What is known of the contents has been vouched for. -/
def Known (past : ZipHistory) (reader : ZipReader) : Prop :=
  ∀ binding, reader.validatedContents = some binding → ∃ expected, Vouched past expected ∧
    reader.Accepts expected ∧ reader.computeExpectedInventoryBinding expected = some binding

/-- How a call on an archive leaves the reader: its inventory is as before, and what is known of the
contents is forgotten, kept by a call that does not fail, or vouched for by the call. -/
structure CallEnds (call : ZipCall) (reader : ZipReader) (result : ZipStatus × ZipReader) : Prop where
  same : reader.Same result.2
  contents : result.2.validatedContents = none ∨
    (result.2.validatedContents = reader.validatedContents ∧ call.Quiet result.1) ∨
    ∃ expected, result.1 = .ok ∧ call.Vouches expected ∧ reader.Accepts expected ∧
      result.2.validatedContents = reader.computeExpectedInventoryBinding expected

section Calls

variable {reader reader' : ZipReader} {expected : ZipExpectedInventory} {call : ZipCall}

abbrev Ends (call : ZipCall) (reader : ZipReader) (action : ZipAction) : Prop :=
  action.Holds (anyContract zipSignature) (fun result _ => CallEnds call reader result) ()

theorem ZipReader.Regular.clear (h : reader.Regular) : reader.clearValidatedContents.Regular :=
  ⟨h.portable, h.counted⟩

theorem accepts_clear (h : reader.clearValidatedContents.Accepts expected) : reader.Accepts expected :=
  ⟨h.isOpen, h.filesDistinct, h.files, h.directoriesDistinct, h.directories⟩

variable {status : ZipStatus} {hasHash hasSink : Bool} {path : Bytes}

theorem ends_fail (hsame : reader.Same reader') : Ends call reader (reader'.fail status) :=
  ⟨hsame.trans reader'.same_clear, .inl rfl⟩

theorem ends_forgotten (hsame : reader.Same reader')
    (hnone : reader'.validatedContents = none) : Ends call reader (pure (status, reader')) :=
  ⟨hsame, .inl hnone⟩

theorem ends_kept (hquiet : call.Quiet status) :
    Ends call reader (pure (status, reader)) := ⟨.refl reader, .inr (.inl ⟨rfl, hquiet⟩)⟩

theorem Ends.after {α : Type} {p : Program zipSignature α} {f : α → ZipAction}
    (hf : ∀ a, Ends call reader (f a)) : Ends call reader (p >>= f) :=
  (holds_any p).bind fun a _ _ => hf a

theorem Ends.verified (hreader : reader.Regular) {hasProgress : Bool}
    {f : Except ZipStatus Bool → ZipAction} (herror : ∀ status, Ends call reader' (f (.error status)))
    (hok : ∀ requiresHash, reader.Accepts expected → Ends call reader' (f (.ok requiresHash))) :
    Ends call reader' ((reader.verifyExpectedInventory expected hasProgress).run >>= f) := by
  have hmatches : Keeps (anyContract zipSignature) (reader.verifyExpectedInventory expected hasProgress)
      () _ := keeps_verifyExpectedInventory indifferent_anyContract
  refine Program.Holds.bind hmatches fun verified _ h => ?_
  cases verified with
  | error status => exact herror status
  | ok requiresHash =>
    exact hok requiresHash (accepts_of_matches hreader h.2.2.1 h.2.1 h.2.2.2)

theorem ends_validateContents (hreader : reader.Regular) (hcall : call.Validates expected) :
    Ends call reader (reader.validateContents expected hasHash) := by
  unfold ZipReader.validateContents
  refine Ends.verified hreader.clear (fun status => ends_forgotten reader.same_clear rfl)
    fun requiresHash haccepts => ?_
  dsimp only
  split
  · exact ends_forgotten reader.same_clear rfl
  split
  · exact ends_forgotten reader.same_clear rfl
  rename_i binding hbinding
  refine Ends.after fun status => ?_
  split
  · split
    · exact ends_forgotten reader.same_clear rfl
    · rename_i after hafter
      split
      · exact ⟨rfl, .inr (.inr ⟨expected, rfl, .inl hcall, accepts_clear haccepts, hafter.symm.trans hbinding.symm⟩)⟩
      · exact ends_forgotten reader.same_clear rfl
  · exact ends_forgotten reader.same_clear rfl

theorem ends_bindAuthenticatedInventory (hreader : reader.Regular) :
    Ends (.bindAuthenticatedInventory expected) reader (reader.bindAuthenticatedInventory expected) := by
  unfold ZipReader.bindAuthenticatedInventory
  refine Ends.verified hreader (fun status => ends_forgotten reader.same_clear rfl)
    fun requiresHash haccepts => ?_
  dsimp only
  split
  · exact ends_forgotten reader.same_clear rfl
  · rename_i binding hbinding
    exact ⟨rfl, .inr (.inr ⟨expected, rfl, .inr rfl, haccepts, hbinding.symm⟩)⟩

theorem ends_extractOne (hreader : reader.Regular) :
    Ends (.extractOne path expected hasSink hasHash) reader
      (reader.extractOne path expected hasSink hasHash) := by
  unfold ZipReader.extractOne
  split
  · rename_i hsink
    exact ends_kept ⟨nofun, .inr hsink⟩
  refine Ends.verified hreader (fun status => ends_fail (.refl reader)) fun requiresHash _ => ?_
  dsimp only
  cases reader.validatedContentsMatch expected with
  | true =>
    split
    · exact ends_fail (.refl reader)
    split
    · exact ends_fail (.refl reader)
    split
    · exact ends_fail (.refl reader)
    unfold ZipReader.extractEntry
    refine Ends.after fun status => ?_
    split
    · exact ends_kept ⟨nofun, .inl rfl⟩
    · exact ends_fail (.refl reader)
  | false =>
    split
    · exact ends_fail reader.same_clear
    split
    · exact ends_fail reader.same_clear
    split
    · exact ends_fail reader.same_clear
    unfold ZipReader.extractEntry
    refine Ends.after fun status => ?_
    split
    · refine Ends.after fun status => ?_
      split
      · exact ends_forgotten reader.same_clear rfl
      · exact ends_fail reader.same_clear
    · exact ends_fail reader.same_clear

theorem ends_extractOneSinglePass (hreader : reader.Regular) {hasVerifyProgress hasStreamProgress : Bool} :
    Ends (.extractOneSinglePass path expected hasSink hasVerifyProgress hasStreamProgress) reader
      (reader.extractOneSinglePass path expected hasSink hasVerifyProgress hasStreamProgress) := by
  unfold ZipReader.extractOneSinglePass
  split
  · rename_i hsink
    exact ends_kept ⟨nofun, .inr hsink⟩
  refine Ends.verified hreader (fun status => ends_fail (.refl reader)) fun requiresHash _ => ?_
  dsimp only
  split
  · exact ends_fail (.refl reader)
  split
  · exact ends_fail (.refl reader)
  refine Ends.after fun status => ?_
  split
  · exact ends_kept ⟨nofun, .inl rfl⟩
  · exact ends_fail (.refl reader)

theorem ends_extractAll (hreader : reader.Regular) :
    Ends (.extractAll expected hasSink hasHash) reader
      (reader.extractAll expected hasSink hasHash) := by
  unfold ZipReader.extractAll
  split
  · exact ends_fail (.refl reader)
  have hvalidated : Ends (.extractAll expected hasSink hasHash) reader
      (reader.validateContents expected hasHash) :=
    ends_validateContents hreader (.inr ⟨hasSink, hasHash, rfl⟩)
  refine hvalidated.bind fun result _ hresult => ?_
  split
  · rename_i hok
    refine Ends.after fun status => ?_
    split
    · refine Ends.after fun status => ?_
      split
      · have heq : result = (ZipStatus.ok, result.2) := Prod.ext hok rfl
        rw [heq] at hresult
        exact hresult
      · exact ends_fail hresult.same
    · exact ends_fail hresult.same
  · exact hresult

end Calls

/-! ### Runs -/

/-- What holds of a reader after any calls. -/
structure Sound (past : ZipHistory) (reader : ZipReader) : Prop where
  regular : reader.Regular
  known : Known past reader

theorem ZipReader.Same.regular (h : reader.Same reader') (hreader : reader.Regular) : reader'.Regular := by
  unfold ZipReader.Same at h
  rw [h]
  exact ⟨hreader.portable, hreader.counted⟩

theorem ZipReader.Same.accepts (h : reader.Same reader')
    (haccepts : reader.Accepts expected) : reader'.Accepts expected := by
  unfold ZipReader.Same at h
  rw [h]
  exact ⟨haccepts.isOpen, haccepts.filesDistinct, haccepts.files, haccepts.directoriesDistinct, haccepts.directories⟩

theorem ZipReader.Same.binding (h : reader.Same reader')
    (expected : ZipExpectedInventory) : reader'.computeExpectedInventoryBinding expected =
      reader.computeExpectedInventoryBinding expected := by
  unfold ZipReader.Same at h
  rw [h]
  rfl

theorem CallEnds.sound (h : CallEnds call reader result) (hsound : Sound past reader) :
    Sound (past ++ [(call, result.1)]) result.2 := by
  refine ⟨h.same.regular hsound.regular, fun binding hbinding => ?_⟩
  rcases h.contents with hnone | ⟨hkept, hquiet⟩ | ⟨expected, hok, hvouches, haccepts, hmade⟩
  · rw [hnone] at hbinding
    cases hbinding
  · rw [hkept] at hbinding
    obtain ⟨expected, hvouched, haccepts, hcomputed⟩ := hsound.known binding hbinding
    refine ⟨expected, hvouched.later hquiet, h.same.accepts haccepts, ?_⟩
    rw [h.same.binding, hcomputed]
  · refine ⟨expected, ?_, h.same.accepts haccepts, ?_⟩
    · rw [hok]
      exact vouched_now hvouches
    · rw [h.same.binding, ← hmade, hbinding]

theorem sound_open {entryCapacity : Nat} {limits : ZipLimits}
    {hasProgress : Bool} {events : List (Event zipSignature)}
    (hrun : AnyRun (reader.open entryCapacity limits hasProgress) events result) : Sound past result.2 := by
  have hends := hrun.holds (open_holds reader entryCapacity limits hasProgress [])
  have hforgotten : result.2.validatedContents = none := by
    refine anyRun_holds hrun (Q := fun result _ => result.2.validatedContents = none) ?_
    unfold ZipReader.open
    split
    · exact rfl
    · refine (holds_any _).bind fun opened _ _ => ?_
      cases opened with
      | ok inventory => exact rfl
      | error failure => exact rfl
  refine ⟨⟨fun hopen => ?_, fun hopen => ?_⟩, fun binding hbinding => ?_⟩
  · by_cases hok : result.1 = .ok
    · obtain ⟨-, hlimits, hportable, -, -⟩ := hends.1 hok
      rw [hlimits]
      exact hportable
    · rw [(hends.2 hok).1] at hopen
      cases hopen
  · by_cases hok : result.1 = .ok
    · exact (hends.1 hok).2.2.2.2
    · rw [(hends.2 hok).1] at hopen
      cases hopen
  · rw [hforgotten] at hbinding
    cases hbinding

theorem sound_configure (settings : ZipSettings) (hsound : Sound past reader) :
    Sound (past ++ [(.configure settings, .ok)]) (reader.configure settings) := by
  refine ⟨⟨hsound.regular.portable, hsound.regular.counted⟩, fun binding hbinding => ?_⟩
  obtain ⟨expected, hvouched, haccepts, hcomputed⟩ := hsound.known binding hbinding
  exact ⟨expected, hvouched.later ⟨nofun, .inl rfl⟩, ⟨haccepts.isOpen, haccepts.filesDistinct,
    haccepts.files, haccepts.directoriesDistinct, haccepts.directories⟩, hcomputed⟩

theorem ZipRun.sound (h : ZipRun past reader) : Sound past reader := by
  induction h with
  | initial =>
    refine ⟨⟨nofun, nofun⟩, fun binding hbinding => ?_⟩
    cases hbinding
  | @call past reader call events result hpast hrun ih =>
    cases call with
    | configure settings =>
      obtain rfl := anyRun_holds hrun
        (Q := fun result _ => result = (ZipStatus.ok, reader.configure settings)) rfl
      exact sound_configure settings ih
    | «open» entryCapacity limits hasProgress => exact sound_open hrun
    | validateContents expected hasHash =>
      exact (anyRun_holds hrun (ends_validateContents ih.regular (.inl ⟨hasHash, rfl⟩))).sound ih
    | bindAuthenticatedInventory expected =>
      exact (anyRun_holds hrun (ends_bindAuthenticatedInventory ih.regular)).sound ih
    | extractOne path expected hasSink hasHash =>
      exact (anyRun_holds hrun (ends_extractOne ih.regular)).sound ih
    | extractOneSinglePass path expected hasSink hasVerifyProgress hasStreamProgress =>
      exact (anyRun_holds hrun (ends_extractOneSinglePass ih.regular)).sound ih
    | extractAll expected hasSink hasHash =>
      exact (anyRun_holds hrun (ends_extractAll ih.regular)).sound ih

/-- A run of `VerifyExpectedInventory` without a progress hook ends well. -/
def ZipReader.Verifies (reader : ZipReader) (expected : ZipExpectedInventory) : Prop :=
  ∃ events requiresHash,
    AnyRun (reader.verifyExpectedInventory expected false).run events (.ok requiresHash)

/-! ### The pass ahead -/

def ZipOp.opensSink : ZipOp → Bool
  | .sinkBegin _ => true
  | _ => false

/-- The extraction sink is asked to take a member. -/
def OpensSink (events : List (Event zipSignature)) : Prop := ∃ event ∈ events, event.op.opensSink = true

/-- The exchanges are those of a pass over the member that gives nothing to the extraction sink and ends
well, and then of the pass that opens the sink. -/
def ZipReader.PassesAhead (reader : ZipReader) (path : Bytes) (expected : ZipExpectedInventory) (hasHash : Bool)
    (events : List (Event zipSignature)) : Prop :=
  ∃ entry checks pass extraction requiresHash status, reader.inventory.findFile path = some entry ∧
    events = checks ++ (pass ++ extraction) ∧
    AnyRun (reader.verifyExpectedInventory expected false).run checks (.ok requiresHash) ∧
    AnyRun (reader.streamFile ⟨hasHash, false, false⟩ entry (findExpectedFile expected path)) pass .ok ∧
    AnyRun (reader.streamFile ⟨hasHash, true, false⟩ entry (findExpectedFile expected path)) extraction status ∧
    OpensSink extraction

/-- The extraction sink was opened without a pass ahead. -/
def ZipReader.SkipsPass (reader : ZipReader) (path : Bytes) (expected : ZipExpectedInventory) (hasHash : Bool)
    (events : List (Event zipSignature)) : Prop :=
  OpensSink events ∧ ¬ reader.PassesAhead path expected hasHash events

section PassAhead

variable {path : Bytes} {hasSink hasHash : Bool} {events : List (Event zipSignature)}

theorem not_opensSink_nil : ¬ OpensSink [] := by
  rintro ⟨event, hmem, -⟩
  cases hmem

theorem OpensSink.of_append {first later : List (Event zipSignature)} (h : OpensSink (first ++ later))
    (hfirst : ¬ OpensSink first) : OpensSink later := by
  obtain ⟨event, hmem, hopens⟩ := h
  rcases mem_append.1 hmem with hmem | hmem
  · exact absurd ⟨event, hmem, hopens⟩ hfirst
  · exact ⟨event, hmem, hopens⟩

/-- What keeps to a protocol that permits no member does not open the sink. -/
theorem not_opensSink (expected : ZipExpectedInventory) {α : Type} {p : Program zipSignature α} {value : α} {Q : α → Protocol → Prop}
    (hp : p.Holds (protocolContract expected fun _ _ => False) Q .start) (hrun : AnyRun p events value) :
    ¬ OpensSink events := by
  rintro ⟨⟨op, answer⟩, hmem, hopens⟩
  obtain ⟨before, after, rfl⟩ := append_of_mem hmem
  have hallowed := (hrun.monitored hp).1.at
  cases op <;> cases hopens
  exact hallowed.2

theorem streamFile_not_opensSink {entry : ZipEntry} {status : ZipStatus}
    (hrun : AnyRun (reader.streamFile ⟨hasHash, false, false⟩ entry (findExpectedFile expected entry.path)) events
      status) : ¬ OpensSink events :=
  not_opensSink expected (streamFile_holds ⟨rfl, rfl⟩ fun hextract => by cases hextract) hrun

theorem verifyExpectedInventory_not_opensSink {verified : Except ZipStatus Bool}
    (hrun : AnyRun (reader.verifyExpectedInventory expected false).run events verified) : ¬ OpensSink events :=
  not_opensSink expected (keeps_verifyExpectedInventory protocolContract_indifferent) hrun

/-- An extraction without a pass ahead is one whose contents are taken for checked. -/
theorem extractOne_skips (hrun : AnyRun (reader.extractOne path expected hasSink hasHash) events result)
    (hskips : reader.SkipsPass path expected hasHash events) :
    reader.Verifies expected ∧ reader.validatedContentsMatch expected = true := by
  obtain ⟨hopens, hahead⟩ := hskips
  unfold ZipReader.extractOne at hrun
  split at hrun
  · cases hrun
    exact absurd hopens not_opensSink_nil
  obtain ⟨checks, later, verified, rfl, hverify, hrun⟩ := hrun.of_bind
  have hlater := hopens.of_append (verifyExpectedInventory_not_opensSink hverify)
  cases verified with
  | error status =>
    cases hrun
    exact absurd hlater not_opensSink_nil
  | ok requiresHash =>
    refine ⟨⟨checks, requiresHash, hverify⟩, ?_⟩
    by_contra hmatch
    rw [Bool.not_eq_true] at hmatch
    dsimp only at hrun
    rw [hmatch, if_neg Bool.false_ne_true] at hrun
    split at hrun
    · cases hrun
      exact absurd hlater not_opensSink_nil
    rename_i entry hentry
    split at hrun
    · cases hrun
      exact absurd hlater not_opensSink_nil
    rename_i wanted hwanted
    split at hrun
    · cases hrun
      exact absurd hlater not_opensSink_nil
    unfold ZipReader.extractEntry at hrun
    rw [if_neg Bool.false_ne_true] at hrun
    obtain ⟨pass, extraction, status, rfl, hpass, hrun⟩ := hrun.of_bind
    rw [← hwanted] at hpass hrun
    have hpath : findExpectedFile expected path = findExpectedFile expected entry.path := by
      rw [(findFile_eq_some hentry).2.2]
    have hextraction := hlater.of_append (streamFile_not_opensSink (hpath ▸ hpass))
    split at hrun
    · rename_i hok
      obtain ⟨extracted, last, status', rfl, hextract, hlast⟩ := hrun.of_bind
      have hnone : last = [] := by
        split at hlast
        · cases hlast
          rfl
        · cases hlast
          rfl
      rw [hnone, append_nil] at hextraction hahead
      exact hahead ⟨entry, checks, pass, extracted, requiresHash, status', hentry, rfl, hverify, hok ▸ hpass,
        hextract, hextraction⟩
    · cases hrun
      exact absurd hextraction not_opensSink_nil

/-- Every pass over a member asks for the size of the archive first. -/
theorem streamFile_asks {sinks : Sinks} {entry : ZipEntry} {wanted : Option ZipExpectedFile} {status : ZipStatus}
    (hrun : AnyRun (reader.streamFile sinks entry wanted) events status) :
    (events = [] ∧ status ≠ .ok) ∨ ∃ answer rest, events = ⟨.getSize, answer⟩ :: rest := by
  unfold ZipReader.streamFile at hrun
  split at hrun
  · cases hrun
    exact .inl ⟨rfl, by decide⟩
  split at hrun
  · cases hrun
    exact .inl ⟨rfl, by decide⟩
  unfold ZipReader.beginStream require at hrun
  split at hrun
  · change AnyRun (Program.call ZipOp.getSize _) events status at hrun
    cases hrun with
    | step hanswer hrest => exact .inr ⟨_, _, rfl⟩
  · cases hrun
    exact .inl ⟨rfl, by decide⟩

theorem ZipReader.PassesAhead.two_sizes (h : reader.PassesAhead path expected hasHash events) :
    2 ≤ events.countP fun event => decide (event.op = .getSize) := by
  obtain ⟨entry, checks, pass, extraction, requiresHash, status, -, rfl, -, hpass, hextract, hopens⟩ := h
  rcases streamFile_asks hpass with ⟨-, hfailed⟩ | ⟨answer, rest, rfl⟩
  · exact absurd rfl hfailed
  rcases streamFile_asks hextract with ⟨rfl, -⟩ | ⟨answer', rest', rfl⟩
  · exact absurd hopens not_opensSink_nil
  rw [countP_append, countP_append, countP_cons, countP_cons]
  change 2 ≤ _ + (_ + 1 + (_ + 1))
  omega

/-- An extraction that opens the sink and asks for the size of the archive once has no pass ahead. -/
theorem skipsPass_of_sizes (hopens : OpensSink events)
    (hsizes : (events.countP fun event => decide (event.op = .getSize)) < 2) :
    reader.SkipsPass path expected hasHash events :=
  ⟨hopens, fun hahead => absurd hahead.two_sizes (Nat.not_le.2 hsizes)⟩

end PassAhead

/-- The message of the inventory does not collide with those of inventories vouched for. -/
def CollisionFree (past : ZipHistory) (inventory : ZipInventory) (expected : ZipExpectedInventory) :
    Prop :=
  ∀ call status other, (call, status) ∈ past → call.Vouches other → ∀ message message',
    inventoryMessage inventory other = some message →
      inventoryMessage inventory expected = some message' →
        sha256Digest message = sha256Digest message' → message = message'

/-- After any calls, `ExtractOne` leaves out its pass ahead only for contents that have been vouched
for under the same inventory, and an inventory passes the check just when it is the archive's. -/
theorem contentsCache_sound {past : ZipHistory} {reader : ZipReader} (hrun : ZipRun past reader)
    (expected : ZipExpectedInventory) :
    (∀ path hasSink hasHash events result, AnyRun (reader.extractOne path expected hasSink hasHash) events result →
      CollisionFree past reader.inventory expected → reader.SkipsPass path expected hasHash events →
        ∃ other, Vouched past other ∧ other.SameAs expected) ∧
    ∀ hasProgress events result,
      AnyRun (reader.verifyExpectedInventory expected hasProgress).run events result →
        ((∃ requiresHash, result = .ok requiresHash) ↔
          reader.Accepts expected ∧ ¬ (hasProgress = true ∧ result = .error .cancelled)) := by
  have hsound := hrun.sound
  refine ⟨fun path hasSink hasHash events result hextract hcollision hskips => ?_,
    fun hasProgress events result hverify => verifyExpectedInventory_iff hsound.regular hverify⟩
  obtain ⟨⟨checks, requiresHash, hverify⟩, hmatch⟩ := extractOne_skips hextract hskips
  have haccepts := ((verifyExpectedInventory_iff hsound.regular hverify).1 ⟨requiresHash, rfl⟩).1
  unfold ZipReader.validatedContentsMatch at hmatch
  split at hmatch
  · rename_i binding current hbinding hcurrent
    obtain rfl := constantTimeDigestEqual_iff.1 hmatch
    obtain ⟨other, hvouched, hother, hcomputed⟩ := hsound.known current hbinding
    obtain ⟨message, hmessage, hdigest⟩ := binding_message hcomputed
    obtain ⟨message', hmessage', hdigest'⟩ := binding_message hcurrent
    refine ⟨other, hvouched, sameAs_of_message hother haccepts hmessage ?_⟩
    obtain ⟨before, call, after, rfl, hvouches, -⟩ := hvouched
    rw [hcollision call .ok other (mem_append_right _ mem_cons_self) hvouches message
      message' hmessage hmessage' (hdigest.trans hdigest'.symm)]
    exact hmessage'
  · cases hmatch

/-! ### The sample archive -/

def sampleOpening : ZipHistory :=
  [(.configure ⟨true, false, false, false, false⟩, .ok), (.open 8 {} false, openedSample.2.1.1)]

theorem sampleOpening_run : ZipRun sampleOpening openedSample.2.1.2 := by
  have hset : ZipRun [(.configure ⟨true, false, false, false, false⟩, .ok)] sampleReader :=
    .call (.configure ⟨true, false, false, false, false⟩) .initial
      (run_anyRun (served sampleArchive) (pure (ZipStatus.ok, sampleReader) : ZipAction) ())
  exact .call (.open 8 {} false) hset
    (run_anyRun (served sampleArchive) (sampleReader.open 8 {} false) ())

theorem verifies_of_run {requiresHash : Bool}
    (h : ((reader.verifyExpectedInventory expected false).run.run (served sampleArchive) ()).2.1 =
      .ok requiresHash) : reader.Verifies expected :=
  ⟨_, requiresHash, h ▸ run_anyRun (served sampleArchive) _ ()⟩

def validatedSample : ZipStatus × ZipReader :=
  ((openedSample.2.1.2.validateContents sampleExpected false).run (served sampleArchive) ()).2.1

def validatedHistory : ZipHistory :=
  sampleOpening ++ [(.validateContents sampleExpected false, validatedSample.1)]

theorem validatedSample_run : ZipRun validatedHistory validatedSample.2 := by
  have hstep : AnyRun ((ZipCall.validateContents sampleExpected false).action openedSample.2.1.2) _
      validatedSample :=
    run_anyRun (served sampleArchive) (openedSample.2.1.2.validateContents sampleExpected false) ()
  exact .call _ sampleOpening_run hstep

/-- `ExtractOne` of the file in the sample archive. -/
def extractingSample (reader : ZipReader) : List (Event zipSignature) × (ZipStatus × ZipReader) × Unit :=
  (reader.extractOne (ascii "D/A") sampleExpected true false).run (served sampleArchive) ()

theorem extractingSample_run (reader : ZipReader) :
    AnyRun (reader.extractOne (ascii "D/A") sampleExpected true false) (extractingSample reader).1
      (extractingSample reader).2.1 :=
  run_anyRun (served sampleArchive) _ ()

theorem extractingSample_skips (reader : ZipReader) (h : ((extractingSample reader).1.any fun event => event.op.opensSink) = true ∧
    ((extractingSample reader).1.countP fun event => decide (event.op = .getSize)) < 2) :
    reader.SkipsPass (ascii "D/A") sampleExpected false (extractingSample reader).1 :=
  skipsPass_of_sizes (any_eq_true.1 h.1) h.2

theorem contentsCache_sound_validatedSample :
    validatedSample.2.SkipsPass (ascii "D/A") sampleExpected false (extractingSample validatedSample.2).1 ∧
    (extractingSample validatedSample.2).2.1.1 = .ok ∧
    ∃ other, Vouched validatedHistory other ∧ other.SameAs sampleExpected := by
  have hskips := extractingSample_skips validatedSample.2 (by decide +kernel)
  have hextract := extractingSample_run validatedSample.2
  refine ⟨hskips, by decide +kernel,
    (contentsCache_sound validatedSample_run sampleExpected).1 _ _ _ _ _ hextract ?_ hskips⟩
  intro call status other hmem hvouches message message' hmessage hmessage' _
  have hother : other = sampleExpected := by
    unfold validatedHistory sampleOpening at hmem
    simp only [cons_append, nil_append, mem_cons, Prod.mk.injEq, not_mem_nil, or_false] at hmem
    obtain ⟨rfl, -⟩ | ⟨rfl, -⟩ | ⟨rfl, -⟩ := hmem
    · rcases hvouches with (⟨_, h⟩ | ⟨_, _, h⟩) | h <;> cases h
    · rcases hvouches with (⟨_, h⟩ | ⟨_, _, h⟩) | h <;> cases h
    · rcases hvouches with (⟨_, h⟩ | ⟨_, _, h⟩) | h <;> cases h
      rfl
  rw [hother, hmessage'] at hmessage
  exact (Option.some.inj hmessage).symm

def boundSample : ZipStatus × ZipReader :=
  ((openedSample.2.1.2.bindAuthenticatedInventory sampleExpected).run (served sampleArchive) ()).2.1

/-- The inventory of the sample archive with a digest that its file does not have. -/
def forgedExpected : ZipExpectedInventory :=
  ⟨[⟨ascii "D/A", 1, .store, some ⟨List.replicate 32 0, rfl⟩⟩], [ascii "D"]⟩

/-- Bound contents have not been checked, and the check of an inventory does not look at digests. -/
theorem boundSample_unchecked :
    (∃ past events result, ZipRun past boundSample.2 ∧
      AnyRun (boundSample.2.extractOne (ascii "D/A") sampleExpected true false) events result ∧
      boundSample.2.SkipsPass (ascii "D/A") sampleExpected false events ∧
      ∀ call status expected, (call, status) ∈ past → ¬ call.Validates expected) ∧
    boundSample.2.Verifies sampleExpected ∧ boundSample.2.Verifies forgedExpected ∧
      sampleExpected.files ≠ forgedExpected.files := by
  have hstep : AnyRun ((ZipCall.bindAuthenticatedInventory sampleExpected).action openedSample.2.1.2) _
      boundSample :=
    run_anyRun (served sampleArchive) (openedSample.2.1.2.bindAuthenticatedInventory sampleExpected) ()
  have hverified : ((boundSample.2.verifyExpectedInventory sampleExpected false).run.run
      (served sampleArchive) ()).2.1 = .ok false := by decide +kernel
  have hforged : ((boundSample.2.verifyExpectedInventory forgedExpected false).run.run
      (served sampleArchive) ()).2.1 = .ok true := by decide +kernel
  refine ⟨⟨_, _, _, .call _ sampleOpening_run hstep, extractingSample_run boundSample.2,
    extractingSample_skips boundSample.2 (by decide +kernel), ?_⟩,
    verifies_of_run hverified, verifies_of_run hforged, by decide⟩
  intro call status expected hmem hvalidates
  unfold sampleOpening at hmem
  simp only [cons_append, nil_append, mem_cons, Prod.mk.injEq, not_mem_nil, or_false] at hmem
  obtain ⟨rfl, -⟩ | ⟨rfl, -⟩ | ⟨rfl, -⟩ := hmem
  · rcases hvalidates with ⟨_, h⟩ | ⟨_, _, h⟩ <;> cases h
  · rcases hvalidates with ⟨_, h⟩ | ⟨_, _, h⟩ <;> cases h
  · rcases hvalidates with ⟨_, h⟩ | ⟨_, _, h⟩ <;> cases h

end Bmx.Zip
