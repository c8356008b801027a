import Bmx.Interaction.Feed
import Bmx.Remote.DeveloperUsbDiagnosticRun
import Mathlib.Algebra.BigOperators.Fin
import Mathlib.Tactic.Abel

/-!
# Where the input reports go

Every report that is observed is in the queue, is the pending report of a source, or was emitted,
suppressed as a duplicate, coalesced or dropped, and the counters count the latter four. Each function
that moves reports keeps this balance.
-/

namespace Bmx.Remote

open Interaction DeveloperUsbDiagnostic List Option Function

/-! ### What was told -/

def reportsOf (fate : UsbReportFate) (events : List UsbReportEvent) : Multiset UsbReportRecord :=
  ((events.filter fun event => event.fate = fate).map UsbReportEvent.report : List UsbReportRecord)

theorem reportsOf_append (fate : UsbReportFate) (events later : List UsbReportEvent) :
    reportsOf fate (events ++ later) = reportsOf fate events + reportsOf fate later := by
  unfold reportsOf
  rw [filter_append, map_append, Multiset.coe_add]

def spentReports (events : List UsbReportEvent) : Multiset UsbReportRecord :=
  reportsOf .emitted events + reportsOf .duplicate events + reportsOf .coalesced events +
    reportsOf .dropped events

theorem spentReports_append (events later : List UsbReportEvent) :
    spentReports (events ++ later) = spentReports events + spentReports later := by
  unfold spentReports
  rw [reportsOf_append, reportsOf_append, reportsOf_append, reportsOf_append]
  abel

/-! ### What is held -/

def pendingOf (source : Option UsbReportSource) : Multiset UsbReportRecord :=
  ((source.bind UsbReportSource.pending).toList : List UsbReportRecord)

namespace DeveloperUsbDiagnostic

def queuedReports (d : DeveloperUsbDiagnostic) : Multiset UsbReportRecord :=
  ((List.range d.reportCount).map fun i => d.reportAt (d.reportRead + i) : List UsbReportRecord)

theorem queuedReports_eq (d : DeveloperUsbDiagnostic) :
    d.queuedReports = (Feed.ringList d.reports d.reportRead d.reportCount : List UsbReportRecord) := rfl

def pendingReports (d : DeveloperUsbDiagnostic) : Multiset UsbReportRecord :=
  ∑ slot, pendingOf (d.reportSources slot)

/-- The reports that are still to be emitted. -/
def heldReports (d : DeveloperUsbDiagnostic) : Multiset UsbReportRecord := d.queuedReports + d.pendingReports

/-- The queue of reports is in its array and has room for what may still be emitted. -/
structure QueueInBounds (d : DeveloperUsbDiagnostic) : Prop where
  read : d.reportRead < usbDiagnosticReportQueueEntries
  write : d.reportWrite = (d.reportRead + d.reportCount) % usbDiagnosticReportQueueEntries
  count : d.reportCount ≤ usbDiagnosticReportQueueEntries
  limit : d.reportsEmitted.toNat + d.reportCount ≤ usbDiagnosticMaximumReports

def reportPart (d : DeveloperUsbDiagnostic) :=
  (d.reports, d.reportRead, d.reportWrite, d.reportCount, d.reportSources, d.reportsEmitted, d.reportsDropped,
    d.reportsDuplicates, d.reportsCoalesced)

end DeveloperUsbDiagnostic

/-- A counter that has counted some more, up to the largest number. -/
def CountsUp (counter counter' : UInt32) (more : Nat) : Prop :=
  counter'.toNat = min (counter.toNat + more) (2 ^ 32 - 1)

theorem countsUp_zero (counter : UInt32) : CountsUp counter counter 0 := by
  have hbound := counter.toNat_lt
  unfold CountsUp
  omega

theorem CountsUp.trans {first second third : UInt32} {some more : Nat} (h : CountsUp first second some)
    (h' : CountsUp second third more) : CountsUp first third (some + more) := by
  unfold CountsUp at *
  omega

theorem countsUp_incrementCounter (counter : UInt32) : CountsUp counter (incrementCounter counter) 1 := by
  have hbound := counter.toNat_lt
  unfold CountsUp incrementCounter
  split
  · rename_i hroom
    have hlast : counter.toNat ≠ 2 ^ 32 - 1 := fun hsame => hroom (UInt32.toNat_inj.1 hsame)
    change (counter.toNat + 1) % 2 ^ 32 = _
    omega
  · rename_i hfull
    rw [not_not.1 hfull]
    rfl

structure Accounts (d : DeveloperUsbDiagnostic) (events : List UsbReportEvent) (d' : DeveloperUsbDiagnostic) :
    Prop where
  bounds : d'.QueueInBounds
  balance : d'.heldReports + spentReports events = d.heldReports + reportsOf .observed events
  emitted : d'.reportsEmitted.toNat = d.reportsEmitted.toNat + (reportsOf .emitted events).card
  duplicates : CountsUp d.reportsDuplicates d'.reportsDuplicates (reportsOf .duplicate events).card
  coalesced : CountsUp d.reportsCoalesced d'.reportsCoalesced (reportsOf .coalesced events).card
  dropped : CountsUp d.reportsDropped d'.reportsDropped (reportsOf .dropped events).card

namespace Accounts

variable {d d' d'' : DeveloperUsbDiagnostic} {events later : List UsbReportEvent}

theorem refl (h : d.QueueInBounds) : Accounts d [] d :=
  ⟨h, rfl, rfl, countsUp_zero _, countsUp_zero _, countsUp_zero _⟩

theorem trans (h : Accounts d events d') (h' : Accounts d' later d'') : Accounts d (events ++ later) d'' := by
  refine ⟨h'.bounds, ?_, ?_, ?_, ?_, ?_⟩
  · rw [spentReports_append, reportsOf_append]
    calc d''.heldReports + (spentReports events + spentReports later)
        = spentReports events + (d''.heldReports + spentReports later) := by abel
      _ = spentReports events + (d'.heldReports + reportsOf .observed later) := by rw [h'.balance]
      _ = (d'.heldReports + spentReports events) + reportsOf .observed later := by abel
      _ = (d.heldReports + reportsOf .observed events) + reportsOf .observed later := by rw [h.balance]
      _ = d.heldReports + (reportsOf .observed events + reportsOf .observed later) := by abel
  · have hfirst := h.emitted
    have hsecond := h'.emitted
    rw [reportsOf_append, Multiset.card_add]
    omega
  · rw [reportsOf_append, Multiset.card_add]
    exact h.duplicates.trans h'.duplicates
  · rw [reportsOf_append, Multiset.card_add]
    exact h.coalesced.trans h'.coalesced
  · rw [reportsOf_append, Multiset.card_add]
    exact h.dropped.trans h'.dropped

theorem of_same (h : d.QueueInBounds) (hsame : d'.reportPart = d.reportPart) : Accounts d [] d' := by
  unfold reportPart at hsame
  simp only [Prod.mk.injEq] at hsame
  obtain ⟨hreports, hread, hwrite, hcount, hsources, hemitted, hdropped, hduplicates, hcoalesced⟩ := hsame
  have hheld : d'.heldReports = d.heldReports := by
    unfold heldReports pendingReports
    rw [queuedReports_eq, queuedReports_eq, hreports, hread, hcount, hsources]
  refine ⟨⟨?_, ?_, ?_, ?_⟩, ?_, ?_, ?_, ?_, ?_⟩
  · rw [hread]
    exact h.read
  · rw [hwrite, hread, hcount]
    exact h.write
  · rw [hcount]
    exact h.count
  · rw [hemitted, hcount]
    exact h.limit
  · rw [hheld]
    rfl
  · rw [hemitted]
    rfl
  · rw [hduplicates]
    exact countsUp_zero _
  · rw [hcoalesced]
    exact countsUp_zero _
  · rw [hdropped]
    exact countsUp_zero _

end Accounts

/-! ### The queue -/

theorem spentReports_nil : spentReports [] = 0 := rfl

/-- A report that finds its way into the queue, or is dropped. -/
structure Queues (d : DeveloperUsbDiagnostic) (report : UsbReportRecord) (events : List UsbReportEvent)
    (d' : DeveloperUsbDiagnostic) : Prop where
  bounds : d'.QueueInBounds
  balance : d'.queuedReports + spentReports events = d.queuedReports + {report}
  sources : d'.reportSources = d.reportSources
  fates : ∀ event ∈ events, event.fate = .dropped
  emitted : d'.reportsEmitted = d.reportsEmitted
  duplicates : d'.reportsDuplicates = d.reportsDuplicates
  coalesced : d'.reportsCoalesced = d.reportsCoalesced
  dropped : CountsUp d.reportsDropped d'.reportsDropped (reportsOf .dropped events).card

theorem reportsOf_other {fate other : UsbReportFate} {events : List UsbReportEvent}
    (h : ∀ event ∈ events, event.fate = other) (hother : other ≠ fate) : reportsOf fate events = 0 := by
  have hnone : events.filter (fun event => event.fate = fate) = [] := by
    apply filter_eq_nil_iff.2
    intro event hevent hfate
    exact hother ((h event hevent).symm.trans (of_decide_eq_true hfate))
  unfold reportsOf
  rw [hnone]
  rfl

namespace DeveloperUsbDiagnostic

variable {d : DeveloperUsbDiagnostic}

theorem queueReportLocked_queues (h : d.QueueInBounds) (report : UsbReportRecord) :
    Queues d report (d.queueReportLocked report).1 (d.queueReportLocked report).2 := by
  unfold queueReportLocked
  split
  · refine ⟨⟨h.read, h.write, h.count, h.limit⟩, rfl, rfl, ?_, rfl, rfl, rfl, countsUp_incrementCounter _⟩
    intro event hevent
    rw [mem_singleton.1 hevent]
  · rename_i hroom
    rw [not_or, Nat.not_le] at hroom
    have hcount := h.count
    refine ⟨⟨h.read, ?_, ?_, ?_⟩, ?_, rfl, ?_, rfl, rfl, rfl, countsUp_zero _⟩
    · change (d.reportWrite + 1) % _ = (d.reportRead + (d.reportCount + 1)) % _
      rw [h.write, Nat.mod_add_mod, Nat.add_assoc]
    · change d.reportCount + 1 ≤ _
      omega
    · change d.reportsEmitted.toNat + (d.reportCount + 1) ≤ _
      omega
    · have hslot : Fin.ofNat usbDiagnosticReportQueueEntries d.reportWrite =
          Fin.ofNat usbDiagnosticReportQueueEntries (d.reportRead + d.reportCount) := by
        apply Fin.ext
        change d.reportWrite % _ = (d.reportRead + d.reportCount) % _
        rw [h.write, Nat.mod_mod]
      rw [queuedReports_eq, queuedReports_eq, hslot, Feed.ringList_append h.read (by omega) report, spentReports_nil, add_zero,
        ← Multiset.coe_add]
      rfl
    · intro event hevent
      cases hevent

theorem drainReport_accounts (h : d.QueueInBounds) : Accounts d d.drainReport.2.1 d.drainReport.2.2 := by
  unfold drainReport
  split
  · rename_i hsome
    obtain ⟨hcount, hlimit⟩ := hsome
    have hbounds := h.count
    have hread := h.read
    have hall := h.limit
    have hnext : (d.reportsEmitted + 1).toNat = d.reportsEmitted.toNat + 1 := by
      have hsmall : d.reportsEmitted.toNat < 256 := hlimit
      change (d.reportsEmitted.toNat + 1) % 2 ^ 32 = _
      omega
    refine ⟨⟨Nat.mod_lt _ (by decide), ?_, ?_, ?_⟩, ?_, hnext, countsUp_zero _, countsUp_zero _, countsUp_zero _⟩
    · change d.reportWrite = ((d.reportRead + 1) % _ + (d.reportCount - 1)) % _
      rw [h.write, Nat.mod_add_mod]
      congr 1
      omega
    · change d.reportCount - 1 ≤ _
      omega
    · change (d.reportsEmitted + 1).toNat + (d.reportCount - 1) ≤ _
      omega
    · have hlist : Feed.ringList d.reports d.reportRead d.reportCount = _ :=
        Feed.ringList_advance hread hbounds hcount
      unfold heldReports
      rw [queuedReports_eq, d.queuedReports_eq, hlist, ← Multiset.cons_coe, ← Multiset.singleton_add]
      change (_ + d.pendingReports + ({_} + 0 + 0 + 0) : Multiset UsbReportRecord) = {_} + _ + d.pendingReports + 0
      abel
  · exact .refl h

/-! ### Sources -/

theorem reportSources_setSource (d : DeveloperUsbDiagnostic) (slot : Fin usbDiagnosticMaximumReportSources)
    (source : Option UsbReportSource) : (d.setSource slot source).reportSources slot = source :=
  update_self ..

theorem pendingReports_setSource (d : DeveloperUsbDiagnostic) (slot : Fin usbDiagnosticMaximumReportSources)
    (source : Option UsbReportSource) :
    (d.setSource slot source).pendingReports + pendingOf (d.reportSources slot) =
      d.pendingReports + pendingOf source := by
  have hupdate : (fun other => pendingOf (Function.update d.reportSources slot source other)) =
      Function.update (fun other => pendingOf (d.reportSources other)) slot (pendingOf source) := by
    funext other
    by_cases hother : other = slot
    · rw [hother, update_self, update_self]
    · rw [update_of_ne hother, update_of_ne hother]
  unfold pendingReports setSource
  rw [hupdate, Finset.sum_update_of_mem (Finset.mem_univ slot),
    Finset.sum_eq_add_sum_sdiff_singleton_of_mem (Finset.mem_univ slot) fun other => pendingOf (d.reportSources other)]
  abel

end DeveloperUsbDiagnostic

section

variable {d d' : DeveloperUsbDiagnostic} {report : UsbReportRecord} {first events : List UsbReportEvent}

theorem Queues.settle (h : Queues d report events d') (hfirst : ∀ event ∈ first, event.fate = .observed)
    (slot : Fin usbDiagnosticMaximumReportSources) {source : Option UsbReportSource}
    (hpending : pendingOf (d.reportSources slot) + reportsOf .observed first = {report} + pendingOf source) :
    Accounts d (first ++ events) (d'.setSource slot source) := by
  have hnone : ∀ fate, fate ≠ .observed → reportsOf fate first = 0 := fun fate hfate =>
    reportsOf_other hfirst hfate.symm
  have hmore : ∀ fate, fate ≠ .dropped → reportsOf fate events = 0 := fun fate hfate =>
    reportsOf_other h.fates hfate.symm
  have hspent : spentReports first = 0 := by
    unfold spentReports
    rw [hnone .emitted (by decide), hnone .duplicate (by decide), hnone .coalesced (by decide),
      hnone .dropped (by decide)]
    rfl
  have hset := d'.pendingReports_setSource slot source
  have hsame : d'.pendingReports = d.pendingReports := by
    unfold pendingReports
    rw [h.sources]
  rw [h.sources, hsame] at hset
  have hbalance := h.balance
  refine ⟨⟨h.bounds.read, h.bounds.write, h.bounds.count, h.bounds.limit⟩, ?_, ?_, ?_, ?_, ?_⟩
  · rw [spentReports_append, reportsOf_append, hspent, hmore .observed (by decide)]
    apply add_right_cancel (b := pendingOf (d.reportSources slot))
    change d'.queuedReports + (d'.setSource slot source).pendingReports + (0 + spentReports events) +
      pendingOf (d.reportSources slot) = d.queuedReports + d.pendingReports + (reportsOf .observed first + 0) +
        pendingOf (d.reportSources slot)
    calc d'.queuedReports + (d'.setSource slot source).pendingReports + (0 + spentReports events) +
          pendingOf (d.reportSources slot)
        = (d'.queuedReports + spentReports events) +
          ((d'.setSource slot source).pendingReports + pendingOf (d.reportSources slot)) := by abel
      _ = (d.queuedReports + {report}) + (d.pendingReports + pendingOf source) := by rw [hbalance, hset]
      _ = d.queuedReports + d.pendingReports + ({report} + pendingOf source) := by abel
      _ = d.queuedReports + d.pendingReports + (pendingOf (d.reportSources slot) + reportsOf .observed first) := by
        rw [hpending]
      _ = _ := by abel
  · rw [reportsOf_append, hnone .emitted (by decide), hmore .emitted (by decide)]
    exact congrArg UInt32.toNat h.emitted
  · rw [reportsOf_append, hnone .duplicate (by decide), hmore .duplicate (by decide)]
    change CountsUp _ d'.reportsDuplicates 0
    rw [h.duplicates]
    exact countsUp_zero _
  · rw [reportsOf_append, hnone .coalesced (by decide), hmore .coalesced (by decide)]
    change CountsUp _ d'.reportsCoalesced 0
    rw [h.coalesced]
    exact countsUp_zero _
  · rw [reportsOf_append, hnone .dropped (by decide), zero_add]
    exact h.dropped

end

namespace DeveloperUsbDiagnostic

variable {d : DeveloperUsbDiagnostic}

theorem flushPendingReportLocked_accounts (h : d.QueueInBounds) (slot : Fin usbDiagnosticMaximumReportSources)
    (nextCaptureMs : UInt64) :
    Accounts d (d.flushPendingReportLocked slot nextCaptureMs).1 (d.flushPendingReportLocked slot nextCaptureMs).2 := by
  unfold flushPendingReportLocked
  split
  · exact .refl h
  rename_i source hsource
  split
  · exact .refl h
  rename_i pending hpending
  have hnone : ∀ event ∈ ([] : List UsbReportEvent), event.fate = .observed := fun _ hevent =>
    absurd hevent not_mem_nil
  refine (queueReportLocked_queues h pending).settle hnone slot ?_
  rw [hsource]
  unfold pendingOf
  rw [bind_some, hpending]
  rfl

theorem pendingOf_flushPendingReportLocked (slot : Fin usbDiagnosticMaximumReportSources) (nextCaptureMs : UInt64) :
    pendingOf ((d.flushPendingReportLocked slot nextCaptureMs).2.reportSources slot) = 0 := by
  unfold flushPendingReportLocked
  split
  · rename_i hnone
    rw [hnone]
    rfl
  rename_i source hsource
  split
  · rename_i hnone
    rw [hsource]
    unfold pendingOf
    rw [bind_some, hnone]
    rfl
  · rw [reportSources_setSource]
    rfl

theorem heldReports_setSource (d : DeveloperUsbDiagnostic) (slot : Fin usbDiagnosticMaximumReportSources)
    (source : Option UsbReportSource) :
    (d.setSource slot source).heldReports + pendingOf (d.reportSources slot) =
      d.heldReports + pendingOf source := by
  have hset := d.pendingReports_setSource slot source
  unfold heldReports
  rw [add_assoc, hset, ← add_assoc]
  rfl

theorem setSource_accounts (h : d.QueueInBounds) (slot : Fin usbDiagnosticMaximumReportSources)
    (source : Option UsbReportSource) (hpending : pendingOf (d.reportSources slot) = pendingOf source) :
    Accounts d [] (d.setSource slot source) := by
  have hset := d.pendingReports_setSource slot source
  rw [hpending] at hset
  have hsame : (d.setSource slot source).pendingReports = d.pendingReports := add_right_cancel hset
  refine ⟨⟨h.read, h.write, h.count, h.limit⟩, ?_, rfl, countsUp_zero _, countsUp_zero _, countsUp_zero _⟩
  unfold heldReports
  rw [hsame]
  rfl

/-! ### An observed report -/

variable {report : UsbReportRecord} {slot : Fin usbDiagnosticMaximumReportSources} {source : UsbReportSource}
  {d' : DeveloperUsbDiagnostic}

theorem findOrAllocateReportSourceLocked_some (h : d.QueueInBounds)
    (hfound : d.findOrAllocateReportSourceLocked report = (some (slot, source), d')) :
    Accounts d [] d' ∧ d'.reportSources slot = some source := by
  unfold findOrAllocateReportSourceLocked at hfound
  dsimp only at hfound
  split at hfound
  · rename_i found hmatch
    obtain ⟨hslot, rfl⟩ := Prod.mk.inj hfound
    cases hslot
    obtain ⟨other, -, hother⟩ := bind_eq_some_iff.1 hmatch
    obtain ⟨source', hsource, heq⟩ := map_eq_some_iff.1 hother
    cases heq
    exact ⟨.refl h, hsource⟩
  · split at hfound
    · cases (Prod.mk.inj hfound).1
    · rename_i free hfree
      obtain ⟨hslot, rfl⟩ := Prod.mk.inj hfound
      obtain ⟨rfl, rfl⟩ := Prod.mk.inj (some.inj hslot)
      have hisNone : (d.reportSources free).isNone = true := by
        have hfound := find?_some hfree
        exact hfound
      have hnone : d.reportSources free = none := isNone_iff_eq_none.1 hisNone
      refine ⟨setSource_accounts h free _ ?_, reportSources_setSource ..⟩
      rw [hnone]
      rfl

theorem findOrAllocateReportSourceLocked_none (h : d.QueueInBounds)
    (hfound : d.findOrAllocateReportSourceLocked report = (none, d')) :
    Accounts d [⟨.observed, report⟩, ⟨.dropped, report⟩] d' := by
  unfold findOrAllocateReportSourceLocked at hfound
  dsimp only at hfound
  split at hfound
  · cases (Prod.mk.inj hfound).1
  · split at hfound
    · obtain ⟨-, rfl⟩ := Prod.mk.inj hfound
      exact ⟨⟨h.read, h.write, h.count, h.limit⟩, rfl, rfl, countsUp_zero _, countsUp_zero _,
        countsUp_incrementCounter _⟩
    · cases (Prod.mk.inj hfound).1

theorem sampleReport_accounts (h : d.QueueInBounds) (report : UsbReportRecord) (cut : Bool)
    (hsource : d.reportSources slot = some source) :
    Accounts d (d.sampleReport report cut slot source).1 (d.sampleReport report cut slot source).2 := by
  have hpendingOf : pendingOf (d.reportSources slot) = (source.pending.toList : List UsbReportRecord) := by
    rw [hsource]
    rfl
  unfold sampleReport
  split
  · exact ⟨⟨h.read, h.write, h.count, h.limit⟩, rfl, rfl, countsUp_incrementCounter _, countsUp_zero _, countsUp_zero _⟩
  dsimp only
  split
  · rename_i hnone
    rw [hnone] at hpendingOf
    split
    · have hcut : Accounts d [] { d with truncated := d.truncated || cut } := .of_same h rfl
      have hfirst : ∀ event ∈ [UsbReportEvent.mk .observed report], event.fate = .observed := by
        intro event hevent
        rw [mem_singleton.1 hevent]
      refine hcut.trans ((queueReportLocked_queues hcut.bounds report).settle hfirst slot ?_)
      change pendingOf (d.reportSources slot) + {report} = {report} + (source.pending.toList : List UsbReportRecord)
      rw [hpendingOf, hnone]
      exact add_comm _ _
    · have hheld := heldReports_setSource { d with truncated := d.truncated || cut } slot
        (some { source with last := some (report.bytes, report.originalSize), pending := some report })
      change _ + pendingOf (d.reportSources slot) = _ at hheld
      rw [hpendingOf] at hheld
      exact ⟨⟨h.read, h.write, h.count, h.limit⟩, hheld, rfl, countsUp_zero _, countsUp_zero _, countsUp_zero _⟩
  · rename_i pending hpending
    rw [hpending] at hpendingOf
    have hheld := heldReports_setSource
      { d with truncated := d.truncated || cut, reportsCoalesced := incrementCounter d.reportsCoalesced } slot
      (some { source with last := some (report.bytes, report.originalSize), pending := some report })
    change _ + pendingOf (d.reportSources slot) = _ at hheld
    rw [hpendingOf] at hheld
    exact ⟨⟨h.read, h.write, h.count, h.limit⟩, hheld, rfl, countsUp_zero _, countsUp_incrementCounter _,
      countsUp_zero _⟩

theorem flushPendingReportLocked_source
    (hsource : d.reportSources slot = some source) (nextCaptureMs : UInt64) :
    ∃ flushed, (d.flushPendingReportLocked slot nextCaptureMs).2.reportSources slot = some flushed := by
  unfold flushPendingReportLocked
  rw [hsource]
  dsimp only
  split
  · exact ⟨source, hsource⟩
  · exact ⟨_, reportSources_setSource ..⟩

theorem observeInputReport_accounts (h : d.QueueInBounds) (path : UsbDiagnosticTarget)
    (interfaceNumber endpointAddress : UInt8) (data : Bytes) (nowMs : UInt64) :
    Accounts d (d.observeInputReport path interfaceNumber endpointAddress data nowMs).1
      (d.observeInputReport path interfaceNumber endpointAddress data nowMs).2 := by
  unfold observeInputReport
  split
  · exact .refl h
  dsimp only
  split
  · rename_i d' hfound
    exact findOrAllocateReportSourceLocked_none h hfound
  · rename_i slot source d' hfound
    obtain ⟨hfirst, hsource⟩ := findOrAllocateReportSourceLocked_some h hfound
    split
    · have hflushed := flushPendingReportLocked_accounts hfirst.bounds slot
        (nowMs + usbDiagnosticReportSampleIntervalMs)
      obtain ⟨source', hsource'⟩ := flushPendingReportLocked_source hsource
        (nowMs + usbDiagnosticReportSampleIntervalMs)
      rw [hsource', getD_some]
      exact (hfirst.trans hflushed).trans (sampleReport_accounts hflushed.bounds _ _ hsource')
    · dsimp only
      rw [hsource, getD_some]
      exact hfirst.trans (sampleReport_accounts hfirst.bounds _ _ hsource)

end DeveloperUsbDiagnostic

end Bmx.Remote
