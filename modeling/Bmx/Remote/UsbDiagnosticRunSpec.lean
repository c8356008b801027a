import Bmx.Remote.UsbDiagnosticSpec

/-!
# Whole runs of the diagnostic

A poll only closes a session that is stopping, after it has flushed every source and emptied the queue.
No report is lost on the way, and the reports of a session stay accounted for from its request on.
-/

namespace Bmx.Remote

open List

namespace DeveloperUsbDiagnostic

variable {d d' : DeveloperUsbDiagnostic}

/-! ### The sections of a poll -/

theorem dumpSection_keeps (point : UsbDumpPoint) (d : DeveloperUsbDiagnostic) : Keeps d [] (d.dumpSection point).2 := by
  unfold dumpSection
  split
  · dsimp only
    split
    · exact keeps_refl d
    · exact keeps_refl d
  · exact keeps_of_same rfl rfl rfl rfl
  · exact keeps_refl d
  · split
    · exact keeps_refl d
    · exact keeps_of_same rfl rfl rfl rfl
  · exact keeps_refl d
  · exact keeps_of_same rfl rfl rfl rfl

theorem drainEvent_keeps (d : DeveloperUsbDiagnostic) : Keeps d [] d.drainEvent.2 := by
  unfold drainEvent
  split
  · rename_i hsome
    refine ⟨fun h => .of_same h rfl, undisturbed_of_same rfl rfl, fun h => h.of_same rfl, ?_⟩
    intro h
    have hcount := h.count
    refine ⟨Nat.mod_lt _ (by decide), ?_, ?_⟩
    · change d.eventWrite = ((d.eventRead + 1) % _ + (d.eventCount - 1)) % _
      rw [h.write, Nat.mod_add_mod]
      congr 1
      omega
    · change d.eventCount - 1 ≤ _
      omega
  · exact keeps_refl d

theorem queueReportLocked_reportSources (report : UsbReportRecord) (d : DeveloperUsbDiagnostic) :
    (d.queueReportLocked report).2.reportSources = d.reportSources := by
  unfold queueReportLocked
  split
  · rfl
  · rfl

variable {slot : Fin usbDiagnosticMaximumReportSources}

theorem flushSource_other (nowMs : UInt64) (force : Bool) {other : Fin usbDiagnosticMaximumReportSources}
    (hother : other ≠ slot) : (d.flushSource nowMs force slot).2.reportSources other = d.reportSources other := by
  unfold flushSource
  split
  · rfl
  split
  · rfl
  unfold flushPendingReportLocked
  split
  · rfl
  split
  · rfl
  · rename_i pending hpending
    change Function.update (d.queueReportLocked pending).2.reportSources slot _ other = _
    rw [Function.update_of_ne hother, queueReportLocked_reportSources]

theorem flushSource_force (nowMs : UInt64) (slot : Fin usbDiagnosticMaximumReportSources)
    (d : DeveloperUsbDiagnostic) : pendingOf ((d.flushSource nowMs true slot).2.reportSources slot) = 0 := by
  unfold flushSource
  split
  · rename_i hnone
    rw [hnone]
    rfl
  · rw [if_neg (fun hwaits => Bool.noConfusion hwaits.1)]
    exact pendingOf_flushPendingReportLocked ..

theorem overSlots_preserves {n : Nat} {P : DeveloperUsbDiagnostic → Prop}
    {body : Fin n → DeveloperUsbDiagnostic → List UsbReportEvent × DeveloperUsbDiagnostic}
    (hbody : ∀ slot d, P d → P (body slot d).2) (slots : List (Fin n)) (h : P d) : P (overSlots body slots d).2 := by
  induction slots generalizing d with
  | nil => exact h
  | cons slot rest ih => exact ih (hbody slot d h)

theorem overSlots_force (nowMs : UInt64) (slots : List (Fin usbDiagnosticMaximumReportSources))
    (hslot : slot ∈ slots) (d : DeveloperUsbDiagnostic) :
    pendingOf ((overSlots (flushSource nowMs true) slots d).2.reportSources slot) = 0 := by
  induction slots generalizing d with
  | nil => cases hslot
  | cons first rest ih =>
    by_cases hfirst : slot = first
    · have hkept : ∀ other d, pendingOf (DeveloperUsbDiagnostic.reportSources d slot) = 0 →
          pendingOf ((flushSource nowMs true other d).2.reportSources slot) = 0 := by
        intro other d hnone
        by_cases hother : slot = other
        · rw [hother]
          exact flushSource_force nowMs other d
        · rw [flushSource_other nowMs true hother]
          exact hnone
      refine overSlots_preserves hkept rest ?_
      rw [hfirst]
      exact flushSource_force nowMs first d
    · exact ih (mem_of_ne_of_mem hfirst hslot) _

theorem flushPendingReports_force (nowMs : UInt64) (d : DeveloperUsbDiagnostic) :
    (d.flushPendingReports nowMs true).2.pendingReports = 0 := by
  apply Finset.sum_eq_zero
  intro slot _
  exact overSlots_force nowMs _ (mem_finRange slot) d

theorem drainReport_restPart (d : DeveloperUsbDiagnostic) :
    d.drainReport.2.2.restPart = d.restPart ∧ d.drainReport.2.2.reportSources = d.reportSources := by
  unfold drainReport
  split
  · exact ⟨rfl, rfl⟩
  · exact ⟨rfl, rfl⟩

theorem drainReport_false (h : d.QueueInBounds) (hempty : d.drainReport.1 = false) : d.reportCount = 0 := by
  unfold drainReport at hempty
  split at hempty
  · cases hempty
  · rename_i hnone
    have hlimit := h.limit
    by_contra hsome
    apply hnone
    omega

theorem drainReport_empty (h : d.reportCount = 0) : d.drainReport = (false, [], d) := by
  unfold drainReport
  apply if_neg
  intro hsome
  exact hsome.1 h

/-! ### The beginning and the end of a session -/

theorem accounts_of_empty (hbounds : d.QueueInBounds) (hempty : d.heldReports = 0) (hemitted : d.reportsEmitted = 0)
    (hduplicates : d.reportsDuplicates = 0) (hcoalesced : d.reportsCoalesced = 0) (hdropped : d.reportsDropped = 0) :
    Accounts .init [] d := by
  refine ⟨hbounds, ?_, ?_, ?_, ?_, ?_⟩
  · rw [hempty]
    rfl
  · rw [hemitted]
    rfl
  · rw [hduplicates]
    rfl
  · rw [hcoalesced]
    rfl
  · rw [hdropped]
    rfl

theorem heldReports_of_rest (hpending : d.pendingReports = 0) (hcount : d.reportCount = 0) : d.heldReports = 0 := by
  unfold heldReports queuedReports
  rw [hpending, hcount]
  rfl

theorem beginLocked_cases (nowMs : UInt64) (d : DeveloperUsbDiagnostic) :
    (d.beginLocked nowMs).Active ∧ (d.beginLocked nowMs).arenaPart = d.arenaPart ∧
      (d.beginLocked nowMs).eventPart = (0, 0, 0) ∧
      (d.beginLocked nowMs).reportPart = (d.reports, 0, 0, 0, fun _ => none, 0, 0, 0, 0) := by
  unfold beginLocked
  dsimp only
  split
  · split
    · exact ⟨.inr rfl, rfl, rfl, rfl⟩
    · exact ⟨.inl rfl, rfl, rfl, rfl⟩
  · exact ⟨.inl rfl, rfl, rfl, rfl⟩

end DeveloperUsbDiagnostic

/-! ### Runs -/

namespace UsbRun

open DeveloperUsbDiagnostic

/-- What has been flushed and drained where a poll stands. -/
def PollPhase (poll : UsbPollPoint) (d : DeveloperUsbDiagnostic) : Prop :=
  match poll with
  | .flush true _ => d.state = .stopping
  | .dumping _ (.events true) _ | .events true _ | .reports true _ => d.state = .stopping ∧ d.pendingReports = 0
  | .summary | .finish => d.state = .stopping ∧ d.pendingReports = 0 ∧ d.reportCount = 0
  | _ => True

/-- What holds between two steps of a run. -/
structure Accounted (r : UsbRun) : Prop where
  accounts : Accounts .init r.session r.diagnostic
  arena : r.diagnostic.ArenaInBounds
  events : r.diagnostic.EventsInBounds
  rest : r.diagnostic.state = .idle ∨ r.diagnostic.state = .starting →
    r.diagnostic.pendingReports = 0 ∧ r.diagnostic.reportCount = 0
  phase : PollPhase r.poll r.diagnostic

variable {r : UsbRun} {d : DeveloperUsbDiagnostic} {poll : UsbPollPoint} {session : List UsbReportEvent}

theorem not_active {state : UsbDiagnosticState} (hstate : d.state = state)
    (hother : state ≠ .waiting ∧ state ≠ .capturing) : ¬ d.Active := by
  rintro (hwaiting | hcapturing)
  · exact hother.1 (hstate.symm.trans hwaiting)
  · exact hother.2 (hstate.symm.trans hcapturing)

variable {d' : DeveloperUsbDiagnostic} {nowMs : UInt64} {stopping : Bool} {path : UsbDiagnosticTarget}

theorem PollPhase.imp (h : PollPhase poll d) (hstate : d.state = .stopping → d'.state = .stopping)
    (hpending : d.state = .stopping → d.pendingReports = 0 → d'.pendingReports = 0)
    (hcount : d.state = .stopping → d.pendingReports = 0 → d.reportCount = 0 → d'.reportCount = 0) :
    PollPhase poll d' := by
  have hflushed : d.state = .stopping ∧ d.pendingReports = 0 → d'.state = .stopping ∧ d'.pendingReports = 0 :=
    fun h => ⟨hstate h.1, hpending h.1 h.2⟩
  have hdrained : d.state = .stopping ∧ d.pendingReports = 0 ∧ d.reportCount = 0 →
      d'.state = .stopping ∧ d'.pendingReports = 0 ∧ d'.reportCount = 0 :=
    fun h => ⟨hstate h.1, hpending h.1 h.2.1, hcount h.1 h.2.1 h.2.2⟩
  cases poll with
  | outside | check nowMs => trivial
  | dumping dump after nowMs =>
    cases after with
    | flush => trivial
    | events stopping =>
      cases stopping with
      | false => trivial
      | true => exact hflushed h
  | flush stopping nowMs =>
    cases stopping with
    | false => trivial
    | true => exact hstate h
  | events stopping nowMs | reports stopping nowMs =>
    cases stopping with
    | false => trivial
    | true => exact hflushed h
  | summary | finish => exact hdrained h

theorem PollPhase.keeps (h : PollPhase poll d) (hkeeps : Undisturbed d d') : PollPhase poll d' := by
  have hinactive : d.state = .stopping → ¬ d.Active := fun hstate => not_active hstate ⟨by decide, by decide⟩
  apply h.imp
  · intro hstate
    exact (hkeeps.state (hinactive hstate)).trans hstate
  · intro hstate hpending
    exact (hkeeps.quiet (hinactive hstate) hpending).1
  · intro hstate hpending hcount
    exact (hkeeps.quiet (hinactive hstate) hpending).2.trans hcount

theorem PollPhase.of_not_stopping (h : PollPhase poll d) (hstate : d.state ≠ .stopping) (d' : DeveloperUsbDiagnostic) :
    PollPhase poll d' := by
  apply h.imp
  all_goals
    intro hstopping
    exact absurd hstopping hstate

theorem Accounted.keeps (h : Accounted r) {events : List UsbReportEvent}
    (hkeeps : DeveloperUsbDiagnostic.Keeps r.diagnostic events d') : Accounted ⟨d', r.poll, r.session ++ events⟩ where
  accounts := h.accounts.trans (hkeeps.accounts h.accounts.bounds)
  arena := hkeeps.arena h.arena
  events := hkeeps.eventQueue h.events
  rest := by
    intro hrest
    have hinactive : ¬ r.diagnostic.Active := by
      intro hactive
      have hactive' := hkeeps.undisturbed.active hactive
      change d'.state = _ ∨ d'.state = _ at hrest
      unfold Active at hactive'
      rcases hrest with hidle | hstarting
      · exact not_active hidle ⟨by decide, by decide⟩ hactive'
      · exact not_active hstarting ⟨by decide, by decide⟩ hactive'
    have hbefore := h.rest (by
      rw [← hkeeps.undisturbed.state hinactive]
      exact hrest)
    obtain ⟨hpending, hcount⟩ := hkeeps.undisturbed.quiet hinactive hbefore.1
    exact ⟨hpending, hcount.trans hbefore.2⟩
  phase := h.phase.keeps hkeeps.undisturbed

theorem Accounted.at (h : Accounted r) {poll : UsbPollPoint} (hphase : PollPhase poll r.diagnostic) :
    Accounted { r with poll := poll } := ⟨h.accounts, h.arena, h.events, h.rest, hphase⟩

theorem Accounted.requestStart (h : Accounted r) (hidle : r.diagnostic.state = .idle) (mode : UsbDiagnosticMode)
    (target : UsbDiagnosticTarget) : Accounted ⟨r.diagnostic.requestStart mode target, r.poll, []⟩ := by
  obtain ⟨hpending, hcount⟩ := h.rest (.inl hidle)
  have hbounds := h.accounts.bounds
  have hstarted : (r.diagnostic.requestStart mode target).QueueInBounds := by
    refine ⟨hbounds.read, hbounds.write, hbounds.count, ?_⟩
    change 0 + r.diagnostic.reportCount ≤ _
    rw [hcount]
    exact Nat.zero_le _
  have hempty : (r.diagnostic.requestStart mode target).heldReports = 0 := heldReports_of_rest hpending hcount
  refine ⟨accounts_of_empty hstarted hempty rfl rfl rfl rfl, h.arena.of_same rfl, h.events.of_same rfl, ?_, ?_⟩
  · intro _
    exact ⟨hpending, hcount⟩
  · apply h.phase.of_not_stopping
    rw [hidle]
    decide

theorem Accounted.stop (h : Accounted r) (hstate : r.diagnostic.state ≠ .stopping) {d : DeveloperUsbDiagnostic}
    (hstopping : d.state = .stopping) (hreports : d.reportPart = r.diagnostic.reportPart)
    (harena : d.arenaPart = r.diagnostic.arenaPart) (hevents : d.eventPart = r.diagnostic.eventPart) :
    Accounted { r with diagnostic := d } := by
  have haccounts := h.accounts.trans (.of_same h.accounts.bounds hreports)
  rw [append_nil] at haccounts
  refine ⟨haccounts, h.arena.of_same harena, h.events.of_same hevents, ?_, h.phase.of_not_stopping hstate d⟩
  rintro (hidle | hstarting)
  · cases hstopping.symm.trans hidle
  · cases hstopping.symm.trans hstarting

theorem Accounted.requestStop (h : Accounted r) : Accounted { r with diagnostic := r.diagnostic.requestStop } := by
  unfold DeveloperUsbDiagnostic.requestStop
  split
  · have hsame : DeveloperUsbDiagnostic.Keeps r.diagnostic []
        { r.diagnostic with stopAfterStart := true, stopDueToTimeout := false } :=
      keeps_of_same rfl rfl rfl rfl
    have hkept := h.keeps hsame
    rw [append_nil] at hkept
    exact hkept
  split
  · rename_i hactive
    have hstate : r.diagnostic.state ≠ .stopping := fun hstopping =>
      not_active hstopping ⟨by decide, by decide⟩ hactive
    exact h.stop hstate rfl rfl rfl rfl
  · exact h

theorem Accounted.begin (h : Accounted r) (nowMs : UInt64) (hphase : ∀ d, PollPhase poll d) :
    Accounted ⟨r.diagnostic.beginLocked nowMs, poll, []⟩ := by
  obtain ⟨hactive, harena, hevents, hreports⟩ := beginLocked_cases nowMs r.diagnostic
  generalize r.diagnostic.beginLocked nowMs = d at hactive harena hevents hreports ⊢
  simp only [reportPart, Prod.mk.injEq] at hreports
  obtain ⟨-, hread, hwrite, hcount, hsources, hemitted, hdropped, hduplicates, hcoalesced⟩ := hreports
  simp only [eventPart, Prod.mk.injEq] at hevents
  obtain ⟨heventRead, heventWrite, heventCount⟩ := hevents
  have hbounds : d.QueueInBounds := by
    refine ⟨?_, ?_, ?_, ?_⟩
    · rw [hread]
      decide
    · rw [hwrite, hread, hcount]
      rfl
    · rw [hcount]
      decide
    · rw [hemitted, hcount]
      decide
  have hpending : d.pendingReports = 0 := by
    apply Finset.sum_eq_zero
    intro slot _
    rw [hsources]
    rfl
  refine ⟨accounts_of_empty hbounds (heldReports_of_rest hpending hcount) hemitted hduplicates hcoalesced hdropped,
    h.arena.of_same harena, ⟨?_, ?_, ?_⟩, fun _ => ⟨hpending, hcount⟩, hphase d⟩
  · change d.eventRead < _
    rw [heventRead]
    decide
  · change d.eventWrite = (d.eventRead + d.eventCount) % _
    rw [heventWrite, heventRead, heventCount]
    rfl
  · change d.eventCount ≤ _
    rw [heventCount]
    decide

/-- A session begins with an empty queue, and may have to stop at once. -/
theorem Accounted.pollBegin (h : Accounted r) (nowMs : UInt64) (hphase : ∀ d, PollPhase poll d) :
    Accounted ⟨(r.diagnostic.pollBegin nowMs).2, poll,
      if r.diagnostic.state = .starting then [] else r.session⟩ := by
  have hdeadline : ∀ (dump : Option UsbDiagnosticTarget) {r : UsbRun}, Accounted r →
      Accounted { r with diagnostic :=
        (if (r.diagnostic.state = .waiting ∨ r.diagnostic.state = .capturing) ∧ nowMs ≥ r.diagnostic.deadlineMs then
          (dump, { r.diagnostic with state := .stopping, stopDueToTimeout := true })
        else (dump, r.diagnostic)).2 } := by
    intro dump r h
    split
    · rename_i hactive
      have hstate : r.diagnostic.state ≠ .stopping := fun hstopping =>
        not_active hstopping ⟨by decide, by decide⟩ hactive.1
      exact h.stop hstate rfl rfl rfl rfl
    · exact h
  unfold DeveloperUsbDiagnostic.pollBegin
  by_cases hstarting : r.diagnostic.state = .starting
  · rw [if_pos hstarting, if_pos hstarting]
    have hbegin := h.begin nowMs hphase
    have hstate : (r.diagnostic.beginLocked nowMs).state ≠ .stopping := fun hstopping =>
      not_active hstopping ⟨by decide, by decide⟩ (beginLocked_cases nowMs r.diagnostic).1
    have hbegun : Accounted
        ⟨if (r.diagnostic.beginLocked nowMs).stopAfterStart then
            { r.diagnostic.beginLocked nowMs with state := .stopping }
          else r.diagnostic.beginLocked nowMs, poll, []⟩ := by
      split
      · exact hbegin.stop hstate rfl rfl rfl rfl
      · exact hbegin
    exact hdeadline _ hbegun
  · rw [if_neg hstarting, if_neg hstarting]
    exact hdeadline _ (h.at (hphase _))

/-! ### A section of a poll, and a step -/

theorem Accounted.dump (h : Accounted r) {dump : UsbDumpPoint} {after : UsbPollStage}
    (hpoll : r.poll = .dumping dump after nowMs) (now : UInt64) : Accounted (r.pollSection now) := by
  have hkept := h.keeps (dumpSection_keeps dump r.diagnostic)
  rw [append_nil, hpoll] at hkept
  unfold pollSection
  rw [hpoll]
  apply hkept.at
  have hphase := hkept.phase
  cases after with
  | flush =>
    split
    · trivial
    · trivial
  | events stopping =>
    cases stopping with
    | false =>
      split
      · trivial
      · trivial
    | true =>
      split
      · exact hphase
      · exact hphase

theorem Accounted.flush (h : Accounted r) (hpoll : r.poll = .flush stopping nowMs)
    (now : UInt64) : Accounted (r.pollSection now) := by
  have hkept := h.keeps (flushPendingReports_keeps nowMs stopping r.diagnostic)
  rw [hpoll] at hkept
  unfold pollSection
  rw [hpoll]
  apply hkept.at
  cases stopping with
  | false => trivial
  | true => exact ⟨hkept.phase, flushPendingReports_force nowMs r.diagnostic⟩

theorem Accounted.drainEvents (h : Accounted r)
    (hpoll : r.poll = .events stopping nowMs) (now : UInt64) : Accounted (r.pollSection now) := by
  have hkept := h.keeps (drainEvent_keeps r.diagnostic)
  rw [append_nil, hpoll] at hkept
  unfold pollSection
  rw [hpoll]
  apply hkept.at
  have hphase := hkept.phase
  cases stopping with
  | false =>
    split
    · trivial
    split
    · trivial
    · trivial
  | true =>
    split
    · exact hphase
    split
    · exact hphase
    · exact hphase

/-- The queue is drained report by report, and left when it is empty. -/
theorem Accounted.drainReports (h : Accounted r)
    (hpoll : r.poll = .reports stopping nowMs) (now : UInt64) : Accounted (r.pollSection now) := by
  have haccounts := h.accounts.trans (drainReport_accounts h.accounts.bounds)
  obtain ⟨hrest, hsources⟩ := drainReport_restPart r.diagnostic
  obtain ⟨hstate, hothers⟩ := Prod.mk.inj hrest
  obtain ⟨harena, hevents⟩ := Prod.mk.inj (Prod.mk.inj hothers).2
  have hpending : r.diagnostic.drainReport.2.2.pendingReports = r.diagnostic.pendingReports := by
    unfold pendingReports
    rw [hsources]
  have hphase := h.phase
  rw [hpoll] at hphase
  unfold pollSection
  rw [hpoll]
  refine ⟨haccounts, h.arena.of_same harena, h.events.of_same hevents, ?_, ?_⟩
  · intro hquiet
    change r.diagnostic.drainReport.2.2.state = _ ∨ r.diagnostic.drainReport.2.2.state = _ at hquiet
    rw [hstate] at hquiet
    have hbefore := h.rest hquiet
    change r.diagnostic.drainReport.2.2.pendingReports = 0 ∧ r.diagnostic.drainReport.2.2.reportCount = 0
    rw [drainReport_empty hbefore.2]
    exact hbefore
  · dsimp only
    split
    · cases stopping with
      | false => trivial
      | true => exact ⟨hstate.trans hphase.1, hpending.trans hphase.2⟩
    split
    · rename_i hempty hstopping
      rw [hstopping] at hphase
      have hnone := drainReport_false h.accounts.bounds (Bool.eq_false_of_not_eq_true hempty)
      refine ⟨hstate.trans hphase.1, hpending.trans hphase.2, ?_⟩
      rw [drainReport_empty hnone]
      exact hnone
    · trivial

theorem Accounted.finish (h : Accounted r) (hpoll : r.poll = .finish) (now : UInt64) :
    Accounted (r.pollSection now) := by
  have hphase := h.phase
  rw [hpoll] at hphase
  obtain ⟨hstate, hpending, hcount⟩ := hphase
  have hheld := heldReports_of_rest hpending hcount
  have haccounts := h.accounts
  unfold pollSection
  rw [hpoll]
  dsimp only
  rw [if_pos hstate]
  have hpending' : r.diagnostic.finishLocked.pendingReports = 0 := by
    apply Finset.sum_eq_zero
    intro slot _
    rfl
  have hbalance := haccounts.balance
  rw [hheld, ← heldReports_of_rest hpending' rfl] at hbalance
  have hlimit : r.diagnostic.reportsEmitted.toNat + 0 ≤ usbDiagnosticMaximumReports := by
    have hbefore := haccounts.bounds.limit
    omega
  have hbounds : r.diagnostic.finishLocked.QueueInBounds :=
    ⟨Nat.zero_lt_succ _, rfl, Nat.zero_le _, hlimit⟩
  have hevents : r.diagnostic.finishLocked.EventsInBounds := ⟨Nat.zero_lt_succ _, rfl, Nat.zero_le _⟩
  exact ⟨⟨hbounds, hbalance, haccounts.emitted, haccounts.duplicates, haccounts.coalesced, haccounts.dropped⟩,
    h.arena.of_same rfl, hevents, fun _ => ⟨hpending', rfl⟩, trivial⟩

theorem pollSection_accounted (now : UInt64) (h : Accounted r) : Accounted (r.pollSection now) := by
  cases hpoll : r.poll with
  | outside =>
    unfold pollSection
    rw [hpoll]
    apply h.pollBegin now
    intro d
    split
    · trivial
    · trivial
  | dumping dump after nowMs => exact h.dump hpoll now
  | flush stopping nowMs => exact h.flush hpoll now
  | events stopping nowMs => exact h.drainEvents hpoll now
  | reports stopping nowMs => exact h.drainReports hpoll now
  | check nowMs =>
    unfold pollSection
    rw [hpoll]
    apply h.at
    split
    · rename_i hstopping
      exact hstopping
    · trivial
  | summary =>
    have hphase := h.phase
    rw [hpoll] at hphase
    unfold pollSection
    rw [hpoll]
    apply h.at
    split
    · exact hphase
    · trivial
  | finish => exact h.finish hpoll now

theorem step_accounted (action : UsbAction) (h : Accounted r) : Accounted (r.step action) := by
  have hquiet : ∀ {d : DeveloperUsbDiagnostic}, DeveloperUsbDiagnostic.Keeps r.diagnostic [] d →
      Accounted { r with diagnostic := d } := by
    intro d hkeeps
    have hkept := h.keeps hkeeps
    rw [append_nil] at hkept
    exact hkept
  cases action with
  | requestStartNew =>
    unfold step DeveloperUsbDiagnostic.requestStartNew
    dsimp only
    split
    · exact h
    · rename_i hidle
      exact h.requestStart (not_not.1 hidle) .newDevices {}
  | requestStartConnected path =>
    unfold step DeveloperUsbDiagnostic.requestStartConnected
    dsimp only
    split
    · exact h
    rename_i hidle
    split
    · exact h
    · exact h.requestStart (not_not.1 hidle) .connectedDevice path
  | requestStop => exact h.requestStop
  | poll nowMs => exact pollSection_accounted nowMs h
  | observeDevice path address speed state product => exact h.keeps (observeDevice_keeps ..)
  | observeProduct path product => exact hquiet (observeProduct_keeps ..)
  | observeDescriptor path type index requestIndex data requestedSize resultSize =>
    exact hquiet (observeDescriptor_keeps ..)
  | observeInputReport path interfaceNumber endpointAddress data nowMs => exact h.keeps (observeInputReport_keeps ..)

theorem init_accounted : Accounted {} := by
  refine ⟨.refl ⟨by decide, rfl, by decide, by decide⟩, ⟨by decide, ?_, ?_, fun _ _ => rfl⟩,
    ⟨by decide, rfl, by decide⟩, fun _ => ⟨?_, rfl⟩, trivial⟩
  · intro slot record hrecord
    cases hrecord
  · intro slot other record record' _ hrecord
    cases hrecord
  · apply Finset.sum_eq_zero
    intro slot _
    rfl

theorem run_accounted (actions : List UsbAction) (h : Accounted r) : Accounted (r.run actions) := by
  induction actions generalizing r with
  | nil => exact h
  | cons action rest ih => exact ih (step_accounted action h)

/-! ### Conservation -/

def countOf (path : UsbDiagnosticTarget) (reports : Multiset UsbReportRecord) : Nat :=
  reports.countP fun report => report.path = path

/-- The reports of a session are conserved. The three counters that may be many stop at the largest
number. -/
structure Conserved (r : UsbRun) : Prop where
  perTarget : ∀ path, countOf path (reportsOf .observed r.session) =
    countOf path (reportsOf .emitted r.session) + countOf path r.diagnostic.queuedReports +
      countOf path r.diagnostic.pendingReports + countOf path (reportsOf .duplicate r.session) +
      countOf path (reportsOf .coalesced r.session) + countOf path (reportsOf .dropped r.session)
  emitted : r.diagnostic.reportsEmitted.toNat = (reportsOf .emitted r.session).card
  duplicates : r.diagnostic.reportsDuplicates.toNat = min (reportsOf .duplicate r.session).card (2 ^ 32 - 1)
  coalesced : r.diagnostic.reportsCoalesced.toNat = min (reportsOf .coalesced r.session).card (2 ^ 32 - 1)
  dropped : r.diagnostic.reportsDropped.toNat = min (reportsOf .dropped r.session).card (2 ^ 32 - 1)
  queue : r.diagnostic.QueueInBounds
  events : r.diagnostic.EventsInBounds
  arena : r.diagnostic.ArenaInBounds

theorem countsUp_from_zero {counter : UInt32} {more : Nat} (h : CountsUp 0 counter more) :
    counter.toNat = min more (2 ^ 32 - 1) := by
  unfold CountsUp at h
  rw [h]
  congr 1
  exact Nat.zero_add more

theorem Accounted.conserved (h : Accounted r) : Conserved r := by
  have haccounts := h.accounts
  refine ⟨?_, ?_, countsUp_from_zero haccounts.duplicates, countsUp_from_zero haccounts.coalesced,
    countsUp_from_zero haccounts.dropped, haccounts.bounds, h.events, h.arena⟩
  · intro path
    have hnone : DeveloperUsbDiagnostic.init.heldReports = 0 :=
      heldReports_of_rest (init_accounted.rest (.inl rfl)).1 rfl
    have hbalance := congrArg (countOf path) haccounts.balance
    rw [hnone, zero_add] at hbalance
    unfold spentReports heldReports countOf at hbalance
    simp only [Multiset.countP_add] at hbalance
    unfold countOf
    omega
  · rw [haccounts.emitted]
    exact Nat.zero_add _

/-! ### More reports than the counters can count -/

theorem queueReportLocked_observed (report : UsbReportRecord) (d : DeveloperUsbDiagnostic) :
    reportsOf .observed (d.queueReportLocked report).1 = 0 := by
  unfold queueReportLocked
  split
  · rfl
  · rfl

theorem flushPendingReportLocked_observed (slot : Fin usbDiagnosticMaximumReportSources) (nextCaptureMs : UInt64)
    (d : DeveloperUsbDiagnostic) : reportsOf .observed (d.flushPendingReportLocked slot nextCaptureMs).1 = 0 := by
  unfold flushPendingReportLocked
  split
  · rfl
  split
  · rfl
  · exact queueReportLocked_observed _ d

theorem sampleReport_observed (report : UsbReportRecord) (cut : Bool) (slot : Fin usbDiagnosticMaximumReportSources)
    (source : UsbReportSource) (d : DeveloperUsbDiagnostic) :
    reportsOf .observed (d.sampleReport report cut slot source).1 = {report} := by
  unfold sampleReport
  split
  · rfl
  dsimp only
  split
  · split
    · rw [← singleton_append, reportsOf_append, queueReportLocked_observed]
      rfl
    · rfl
  · rfl

/-- An observed report of a target is told once, and leaves the selection of targets alone. -/
theorem observeInputReport_observed (htarget : d.isTargetLocked path = true)
    (interfaceNumber endpointAddress : UInt8) (data : Bytes) (nowMs : UInt64) :
    reportsOf .observed (d.observeInputReport path interfaceNumber endpointAddress data nowMs).1 =
      {reportRecord path interfaceNumber endpointAddress data nowMs} := by
  unfold observeInputReport
  rw [if_neg (by rw [htarget]; decide)]
  dsimp only
  split
  · rfl
  split
  · rw [reportsOf_append, flushPendingReportLocked_observed, sampleReport_observed, zero_add]
  · rw [reportsOf_append, sampleReport_observed]
    rfl

theorem observeInputReport_target (path other : UsbDiagnosticTarget) (interfaceNumber endpointAddress : UInt8)
    (data : Bytes) (nowMs : UInt64) (d : DeveloperUsbDiagnostic) :
    (d.observeInputReport path interfaceNumber endpointAddress data nowMs).2.isTargetLocked other =
      d.isTargetLocked other := by
  have hrest := observeInputReport_restPart path interfaceNumber endpointAddress data nowMs d
  simp only [restPart, targetPart, Prod.mk.injEq] at hrest
  obtain ⟨hstate, ⟨hstarted, hmode, hrequested, hdevices, hgeneration⟩, -⟩ := hrest
  unfold isTargetLocked matchesSelectedDeviceLocked findDeviceLocked
  rw [hstate, hstarted, hmode, hrequested, hdevices, hgeneration]

theorem run_observed (htarget : r.diagnostic.isTargetLocked path = true)
    (interfaceNumber endpointAddress : UInt8) (data : Bytes) (nowMs : UInt64) (n : Nat) :
    (reportsOf .observed (r.run (List.replicate n
      (.observeInputReport path interfaceNumber endpointAddress data nowMs))).session).card =
        (reportsOf .observed r.session).card + n := by
  induction n generalizing r with
  | zero => rfl
  | succ n ih =>
    have hnext := ih (r := r.step (.observeInputReport path interfaceNumber endpointAddress data nowMs))
      ((observeInputReport_target ..).trans htarget)
    have hone := observeInputReport_observed htarget interfaceNumber endpointAddress data nowMs
    have hsession : (reportsOf .observed
        (r.step (.observeInputReport path interfaceNumber endpointAddress data nowMs)).session).card =
          (reportsOf .observed r.session).card + 1 := by
      change (reportsOf .observed (r.session ++
        (r.diagnostic.observeInputReport path interfaceNumber endpointAddress data nowMs).1)).card = _
      rw [reportsOf_append, Multiset.card_add, hone, Multiset.card_singleton]
    refine hnext.trans ?_
    omega

theorem pendingReports_card (d : DeveloperUsbDiagnostic) :
    d.pendingReports.card ≤ usbDiagnosticMaximumReportSources := by
  have hone : ∀ slot ∈ Finset.univ, (pendingOf (d.reportSources slot)).card ≤ 1 := by
    intro slot _
    unfold pendingOf
    exact Option.length_toList_le
  have hall := Finset.sum_le_card_nsmul _ _ _ hone
  unfold pendingReports
  simpa using hall

/-- The first report of many from a newly connected device. -/
def manyReports (n : Nat) : List UsbAction :=
  [.requestStartNew, .poll 0, .observeDevice {} 1 0 .connected none] ++
    List.replicate n (.observeInputReport {} 0 129 [0] 0)

/-- Every report that is observed is emitted, queued, pending, suppressed, coalesced or dropped. -/
theorem run_conserved (actions : List UsbAction) : Conserved (run actions {}) :=
  (run_accounted actions init_accounted).conserved

/-- The counters do not tell apart more reports than they can count. -/
theorem manyReports_counters :
    (reportsOf .observed (run (manyReports (2 ^ 34)) {}).session).card ≠
      (run (manyReports (2 ^ 34)) {}).diagnostic.reportsEmitted.toNat +
        (run (manyReports (2 ^ 34)) {}).diagnostic.reportCount +
        (run (manyReports (2 ^ 34)) {}).diagnostic.pendingReports.card +
        (run (manyReports (2 ^ 34)) {}).diagnostic.reportsDuplicates.toNat +
        (run (manyReports (2 ^ 34)) {}).diagnostic.reportsCoalesced.toNat +
        (run (manyReports (2 ^ 34)) {}).diagnostic.reportsDropped.toNat := by
  have hstart : (run [.requestStartNew, .poll 0, .observeDevice {} 1 0 .connected none] {}).diagnostic.isTargetLocked
      {} = true := by decide
  have hobserved := run_observed hstart 0 129 [0] 0 (2 ^ 34)
  have hsplit : run (manyReports (2 ^ 34)) {} =
      (run [.requestStartNew, .poll 0, .observeDevice {} 1 0 .connected none] {}).run
        (List.replicate (2 ^ 34) (.observeInputReport {} 0 129 [0] 0)) := foldl_append
  rw [← hsplit] at hobserved
  have hlimit : _ + _ ≤ 256 := (run_conserved (manyReports (2 ^ 34))).queue.limit
  have hpending : _ ≤ 16 := pendingReports_card (run (manyReports (2 ^ 34)) {}).diagnostic
  have hduplicates := (run (manyReports (2 ^ 34)) {}).diagnostic.reportsDuplicates.toNat_lt
  have hcoalesced := (run (manyReports (2 ^ 34)) {}).diagnostic.reportsCoalesced.toNat_lt
  have hdropped := (run (manyReports (2 ^ 34)) {}).diagnostic.reportsDropped.toNat_lt
  omega

end UsbRun

end Bmx.Remote
