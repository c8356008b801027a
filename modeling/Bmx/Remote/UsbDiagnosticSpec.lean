import Bmx.Remote.UsbReportSpec
import Mathlib.Algebra.Order.BigOperators.Group.Finset

/-!
# What the diagnostic keeps

The queue of events and the arena of descriptors stay in bounds, and the slices of the arena stay
apart. While no capture is active no report comes in, so that what was flushed and drained stays so
until the session is closed.
-/

namespace Bmx.Remote

open Interaction Option Function

namespace DeveloperUsbDiagnostic

/-- The queue of device events is in its array. -/
structure EventsInBounds (d : DeveloperUsbDiagnostic) : Prop where
  read : d.eventRead < usbDiagnosticEventQueueEntries
  write : d.eventWrite = (d.eventRead + d.eventCount) % usbDiagnosticEventQueueEntries
  count : d.eventCount ≤ usbDiagnosticEventQueueEntries

/-- The slices of the descriptors lie in the arena and do not overlap. -/
structure ArenaInBounds (d : DeveloperUsbDiagnostic) : Prop where
  used : d.descriptorStorageUsed ≤ usbDiagnosticDescriptorBytes
  inside : ∀ slot record, d.descriptors slot = some record →
    record.offset + record.size ≤ d.descriptorStorageUsed
  apart : ∀ slot other record record', slot ≠ other → d.descriptors slot = some record →
    d.descriptors other = some record' →
      record.offset + record.size ≤ record'.offset ∨ record'.offset + record'.size ≤ record.offset
  untouched : ∀ place, usbDiagnosticDescriptorBytes ≤ place → d.descriptorStorage place = 0

/-- A capture takes reports. -/
def Active (d : DeveloperUsbDiagnostic) : Prop := d.state = .waiting ∨ d.state = .capturing

/-- Nothing comes in and nothing is flushed where no capture is active. -/
structure Undisturbed (d d' : DeveloperUsbDiagnostic) : Prop where
  state : ¬ d.Active → d'.state = d.state
  quiet : ¬ d.Active → d.pendingReports = 0 → d'.pendingReports = 0 ∧ d'.reportCount = d.reportCount
  active : d.Active → d'.Active

/-- What the arena and the queue of events depend on. -/
def arenaPart (d : DeveloperUsbDiagnostic) := (d.descriptors, d.descriptorStorage, d.descriptorStorageUsed)

def eventPart (d : DeveloperUsbDiagnostic) := (d.eventRead, d.eventWrite, d.eventCount)

structure Keeps (d : DeveloperUsbDiagnostic) (events : List UsbReportEvent) (d' : DeveloperUsbDiagnostic) :
    Prop where
  accounts : d.QueueInBounds → Accounts d events d'
  undisturbed : Undisturbed d d'
  arena : d.ArenaInBounds → d'.ArenaInBounds
  eventQueue : d.EventsInBounds → d'.EventsInBounds

variable {d d' d'' : DeveloperUsbDiagnostic} {events later : List UsbReportEvent}

theorem Undisturbed.trans (h : Undisturbed d d') (h' : Undisturbed d' d'') : Undisturbed d d'' := by
  have hstill : ¬ d.Active → ¬ d'.Active := by
    intro hinactive hactive
    unfold Active at hinactive hactive
    rw [h.state hinactive] at hactive
    exact hinactive hactive
  constructor
  · intro hinactive
    rw [h'.state (hstill hinactive), h.state hinactive]
  · intro hinactive hnone
    obtain ⟨hnone', hcount⟩ := h.quiet hinactive hnone
    obtain ⟨hnone'', hcount'⟩ := h'.quiet (hstill hinactive) hnone'
    exact ⟨hnone'', hcount'.trans hcount⟩
  · intro hactive
    exact h'.active (h.active hactive)

theorem Keeps.trans (h : Keeps d events d') (h' : Keeps d' later d'') : Keeps d (events ++ later) d'' where
  accounts := fun hbounds => (h.accounts hbounds).trans (h'.accounts (h.accounts hbounds).bounds)
  undisturbed := h.undisturbed.trans h'.undisturbed
  arena := fun harena => h'.arena (h.arena harena)
  eventQueue := fun hevents => h'.eventQueue (h.eventQueue hevents)

theorem undisturbed_of_same (hstate : d'.state = d.state) (hsame : d'.reportPart = d.reportPart) :
    Undisturbed d d' := by
  unfold reportPart at hsame
  simp only [Prod.mk.injEq] at hsame
  obtain ⟨-, -, -, hcount, hsources, -⟩ := hsame
  refine ⟨fun _ => hstate, ?_, ?_⟩
  · intro _ hnone
    refine ⟨?_, hcount⟩
    unfold pendingReports at hnone ⊢
    rw [hsources]
    exact hnone
  · unfold Active
    rw [hstate]
    exact id

theorem ArenaInBounds.of_same (h : d.ArenaInBounds) (hsame : d'.arenaPart = d.arenaPart) : d'.ArenaInBounds := by
  unfold arenaPart at hsame
  simp only [Prod.mk.injEq] at hsame
  obtain ⟨hdescriptors, hstorage, hused⟩ := hsame
  refine ⟨?_, ?_, ?_, ?_⟩
  · rw [hused]
    exact h.used
  · rw [hdescriptors, hused]
    exact h.inside
  · rw [hdescriptors]
    exact h.apart
  · rw [hstorage]
    exact h.untouched

theorem EventsInBounds.of_same (h : d.EventsInBounds) (hsame : d'.eventPart = d.eventPart) : d'.EventsInBounds := by
  unfold eventPart at hsame
  simp only [Prod.mk.injEq] at hsame
  obtain ⟨hread, hwrite, hcount⟩ := hsame
  refine ⟨?_, ?_, ?_⟩
  · rw [hread]
    exact h.read
  · rw [hwrite, hread, hcount]
    exact h.write
  · rw [hcount]
    exact h.count

theorem keeps_of_same (hstate : d'.state = d.state) (hreports : d'.reportPart = d.reportPart)
    (harena : d'.arenaPart = d.arenaPart) (hevents : d'.eventPart = d.eventPart) : Keeps d [] d' where
  accounts := fun h => .of_same h hreports
  undisturbed := undisturbed_of_same hstate hreports
  arena := fun h => h.of_same harena
  eventQueue := fun h => h.of_same hevents

theorem keeps_refl (d : DeveloperUsbDiagnostic) : Keeps d [] d := keeps_of_same rfl rfl rfl rfl

/-! ### Devices and descriptors -/

theorem ArenaInBounds.fewer (h : d.ArenaInBounds) (hstorage : d'.descriptorStorage = d.descriptorStorage)
    (hused : d'.descriptorStorageUsed = d.descriptorStorageUsed)
    (hfewer : ∀ slot record, d'.descriptors slot = some record → d.descriptors slot = some record) :
    d'.ArenaInBounds := by
  refine ⟨?_, ?_, ?_, ?_⟩
  · rw [hused]
    exact h.used
  · intro slot record hrecord
    rw [hused]
    exact h.inside slot record (hfewer slot record hrecord)
  · intro slot other record record' hne hrecord hrecord'
    exact h.apart slot other record record' hne (hfewer slot record hrecord) (hfewer other record' hrecord')
  · rw [hstorage]
    exact h.untouched

theorem dropDescriptors_keeps (path : UsbDiagnosticTarget) (d : DeveloperUsbDiagnostic) :
    Keeps d [] (d.dropDescriptors path) where
  accounts := fun h => .of_same h rfl
  undisturbed := undisturbed_of_same rfl rfl
  arena := by
    intro h
    refine h.fewer rfl rfl ?_
    intro slot record hrecord
    exact (filter_eq_some_iff.1 hrecord).1
  eventQueue := fun h => h.of_same rfl

theorem setDevice_keeps (slot : Fin usbDiagnosticMaximumDevices) (record : UsbDeviceRecord)
    (d : DeveloperUsbDiagnostic) : Keeps d [] (d.setDevice slot record) := keeps_of_same rfl rfl rfl rfl

theorem findOrAllocateDeviceLocked_keeps (path : UsbDiagnosticTarget) (d : DeveloperUsbDiagnostic) :
    Keeps d [] (d.findOrAllocateDeviceLocked path).2 := by
  unfold findOrAllocateDeviceLocked
  split
  · exact keeps_refl d
  split
  · exact keeps_of_same rfl rfl rfl rfl
  split
  · exact (dropDescriptors_keeps _ d).trans (setDevice_keeps _ _ _)
  · exact setDevice_keeps _ _ d

theorem setProduct_keeps (device : Fin usbDiagnosticMaximumDevices) (record : UsbDeviceRecord)
    (path : UsbDiagnosticTarget) (product : Bytes) (d : DeveloperUsbDiagnostic) :
    Keeps d [] (d.setProduct device record path product).2 := keeps_of_same rfl rfl rfl rfl

theorem observeProduct_keeps (path : UsbDiagnosticTarget) (product : Option Bytes) (d : DeveloperUsbDiagnostic) :
    Keeps d [] (d.observeProduct path product) := by
  have hfound := findOrAllocateDeviceLocked_keeps path d
  unfold observeProduct
  split
  · rename_i d' hnone
    rw [hnone] at hfound
    exact hfound
  · rename_i device record d' hsome
    rw [hsome] at hfound
    exact hfound.trans (setProduct_keeps _ _ _ _ _)

/-- Two slices of the arena do not overlap. -/
def SlicesApart (offset size : Nat) (record : UsbDescriptorRecord) : Prop :=
  offset + size ≤ record.offset ∨ record.offset + record.size ≤ offset

/-- The record of a descriptor lies in the arena apart from those in the other slots. -/
theorem findOrAllocateDescriptor_apart (h : d.ArenaInBounds) {path : UsbDiagnosticTarget} {type index : UInt8}
    {requestIndex : UInt16} {slot : Fin usbDiagnosticMaximumDescriptors} {record : UsbDescriptorRecord}
    (hfound : d.findOrAllocateDescriptor path type index requestIndex = some (slot, record)) :
    record.offset + record.size ≤ d.descriptorStorageUsed ∧ ∀ other record', other ≠ slot →
      d.descriptors other = some record' → SlicesApart record.offset record.size record' := by
  unfold findOrAllocateDescriptor at hfound
  dsimp only at hfound
  split at hfound
  · rename_i found hmatch
    cases hfound
    obtain ⟨other, -, hother⟩ := bind_eq_some_iff.1 hmatch
    obtain ⟨record', hrecord, heq⟩ := map_eq_some_iff.1 hother
    cases heq
    refine ⟨h.inside _ _ hrecord, ?_⟩
    intro other' record'' hne hrecord'
    exact h.apart _ _ _ _ hne.symm hrecord hrecord'
  · obtain ⟨free, -, heq⟩ := map_eq_some_iff.1 hfound
    cases heq
    exact ⟨Nat.zero_le _, fun _ _ _ _ => .inl (Nat.zero_le _)⟩

/-- A descriptor stays inside its old slice, or gets a new one behind all others. -/
theorem placeDescriptor_cases (record : UsbDescriptorRecord) (retained used : Nat)
    (hused : used ≤ usbDiagnosticDescriptorBytes) :
    ((placeDescriptor record retained used).1 = record.offset ∧
      (placeDescriptor record retained used).2.1 ≤ record.size ∧ (placeDescriptor record retained used).2.2 = used) ∨
    ((placeDescriptor record retained used).1 = used ∧
      (placeDescriptor record retained used).2.2 = used + (placeDescriptor record retained used).2.1 ∧
      (placeDescriptor record retained used).2.2 ≤ usbDiagnosticDescriptorBytes) := by
  unfold placeDescriptor
  split
  · rename_i hfits
    exact .inl ⟨rfl, hfits.1, rfl⟩
  split
  · rename_i hnone
    exact .inl ⟨rfl, hnone ▸ Nat.zero_le _, rfl⟩
  · refine .inr ⟨rfl, rfl, ?_⟩
    change used + min retained (usbDiagnosticDescriptorBytes - used) ≤ _
    omega

theorem copyDescriptor_outside {offset size place : Nat} {data : Option Bytes} {storage : Nat → UInt8}
    (hplace : offset + size ≤ place) : copyDescriptor offset size data storage place = storage place := by
  unfold copyDescriptor
  split
  · rfl
  · exact if_neg fun hinside => absurd hinside.2 (Nat.not_lt.2 hplace)

theorem ArenaInBounds.put (h : d.ArenaInBounds) {slot : Fin usbDiagnosticMaximumDescriptors}
    {record record' : UsbDescriptorRecord} {used : Nat} {data : Option Bytes}
    (hinside : record.offset + record.size ≤ d.descriptorStorageUsed)
    (hapart : ∀ other record'', other ≠ slot → d.descriptors other = some record'' →
      SlicesApart record.offset record.size record'')
    (hplaced : (record'.offset = record.offset ∧ record'.size ≤ record.size ∧ used = d.descriptorStorageUsed) ∨
      (record'.offset = d.descriptorStorageUsed ∧ used = d.descriptorStorageUsed + record'.size ∧
        used ≤ usbDiagnosticDescriptorBytes))
    (hdescriptors : d'.descriptors = Function.update d.descriptors slot (some record'))
    (hstorage : d'.descriptorStorage = copyDescriptor record'.offset record'.size data d.descriptorStorage)
    (hused : d'.descriptorStorageUsed = used) : d'.ArenaInBounds := by
  have hbound := h.used
  have hgrows : d.descriptorStorageUsed ≤ used := by omega
  have hlast : used ≤ usbDiagnosticDescriptorBytes := by omega
  have hnew : record'.offset + record'.size ≤ used := by omega
  have hothers : ∀ other record'', other ≠ slot → d.descriptors other = some record'' →
      SlicesApart record'.offset record'.size record'' := by
    intro other record'' hne hrecord
    have hold := hapart other record'' hne hrecord
    have hbefore := h.inside other record'' hrecord
    unfold SlicesApart at hold ⊢
    omega
  refine ⟨?_, ?_, ?_, ?_⟩
  · rw [hused]
    exact hlast
  · intro other record'' hrecord
    rw [hdescriptors] at hrecord
    rw [hused]
    by_cases hother : other = slot
    · rw [hother, update_self] at hrecord
      rw [← some.inj hrecord]
      exact hnew
    · rw [update_of_ne hother] at hrecord
      exact Nat.le_trans (h.inside other record'' hrecord) hgrows
  · intro first second record₁ record₂ hne hfirst hsecond
    rw [hdescriptors] at hfirst hsecond
    by_cases hslot : first = slot
    · rw [hslot, update_self] at hfirst
      rw [hslot] at hne
      rw [update_of_ne hne.symm] at hsecond
      rw [← some.inj hfirst]
      exact hothers second record₂ hne.symm hsecond
    rw [update_of_ne hslot] at hfirst
    by_cases hslot' : second = slot
    · rw [hslot', update_self] at hsecond
      rw [← some.inj hsecond]
      exact (hothers first record₁ hslot hfirst).symm
    · rw [update_of_ne hslot'] at hsecond
      exact h.apart first second record₁ record₂ hne hfirst hsecond
  · intro place hplace
    rw [hstorage, copyDescriptor_outside (by omega)]
    exact h.untouched place hplace

theorem observeDescriptor_keeps (path : UsbDiagnosticTarget) (type index : UInt8) (requestIndex : UInt16)
    (data : Option Bytes) (requestedSize : Nat) (resultSize : Int) (d : DeveloperUsbDiagnostic) :
    Keeps d [] (d.observeDescriptor path type index requestIndex data requestedSize resultSize) := by
  have hdevice := findOrAllocateDeviceLocked_keeps path d
  unfold observeDescriptor
  split
  · rename_i d' hnone
    rw [hnone] at hdevice
    exact hdevice
  rename_i device deviceRecord d' hsome
  rw [hsome] at hdevice
  apply Keeps.trans hdevice
  split
  · exact keeps_of_same rfl rfl rfl rfl
  rename_i slot record hrecord
  refine ⟨fun h => .of_same h rfl, undisturbed_of_same rfl rfl, ?_, fun h => h.of_same rfl⟩
  intro h
  obtain ⟨hinside, hapart⟩ := findOrAllocateDescriptor_apart h hrecord
  have hplaced := placeDescriptor_cases record (retainedSize requestedSize resultSize) d'.descriptorStorageUsed h.used
  exact h.put hinside hapart hplaced rfl rfl rfl

/-! ### Devices that come and go -/

theorem queueEvent_keeps (event : UsbDeviceEvent) (d : DeveloperUsbDiagnostic) : Keeps d [] (d.queueEvent event) := by
  unfold queueEvent
  split
  · rename_i hroom
    refine ⟨fun h => .of_same h rfl, undisturbed_of_same rfl rfl, fun h => h.of_same rfl, ?_⟩
    intro h
    refine ⟨h.read, ?_, hroom⟩
    change (d.eventWrite + 1) % _ = (d.eventRead + (d.eventCount + 1)) % _
    rw [h.write, Nat.mod_add_mod, Nat.add_assoc]
  · exact keeps_of_same rfl rfl rfl rfl

theorem setState_keeps (h : d.Active) {state : UsbDiagnosticState} (hstate : state = .waiting ∨ state = .capturing) :
    Keeps d [] { d with state := state } where
  accounts := fun hbounds => .of_same hbounds rfl
  undisturbed := ⟨fun hinactive => absurd h hinactive, fun hinactive => absurd h hinactive, fun _ => hstate⟩
  arena := fun harena => harena.of_same rfl
  eventQueue := fun hevents => hevents.of_same rfl

theorem selectDevice_keeps (device : Fin usbDiagnosticMaximumDevices) (record : UsbDeviceRecord)
    (path : UsbDiagnosticTarget) (d : DeveloperUsbDiagnostic) (hactive : d.Active) :
    Keeps d [] (d.selectDevice device record path) := by
  unfold selectDevice
  split
  · have hselected : Keeps d []
        { (d.setDevice device { record with sessionGeneration := d.sessionGeneration }) with
          devicesSeen := d.devicesSeen + 1
          firstTarget := d.firstTarget.or (some path) } := keeps_of_same rfl rfl rfl rfl
    exact hselected.trans (setState_keeps (hselected.undisturbed.active hactive) (.inr rfl))
  · exact setState_keeps hactive (.inr rfl)

/-! ### Observers that move reports -/

/-- What the selection of targets depends on. -/
def targetPart (d : DeveloperUsbDiagnostic) :=
  (d.sessionStarted, d.mode, d.requestedTarget, d.devices, d.sessionGeneration)

/-- What the functions that move reports leave alone. -/
def restPart (d : DeveloperUsbDiagnostic) := (d.state, d.targetPart, d.arenaPart, d.eventPart)

theorem keeps_of_moves (haccounts : d.QueueInBounds → Accounts d events d') (hrest : d'.restPart = d.restPart)
    (hquiet : ¬ d.Active → d.pendingReports = 0 → d'.pendingReports = 0 ∧ d'.reportCount = d.reportCount) :
    Keeps d events d' := by
  obtain ⟨hstate, hothers⟩ := Prod.mk.inj hrest
  obtain ⟨harena, hevents⟩ := Prod.mk.inj (Prod.mk.inj hothers).2
  refine ⟨haccounts, ⟨fun _ => hstate, hquiet, ?_⟩, fun h => h.of_same harena, fun h => h.of_same hevents⟩
  unfold Active
  rw [hstate]
  exact id

theorem overSlots_keeps {n : Nat} {body : Fin n → DeveloperUsbDiagnostic → List UsbReportEvent × DeveloperUsbDiagnostic}
    (hbody : ∀ slot d, Keeps d (body slot d).1 (body slot d).2) (slots : List (Fin n)) (d : DeveloperUsbDiagnostic) :
    Keeps d (overSlots body slots d).1 (overSlots body slots d).2 := by
  induction slots generalizing d with
  | nil => exact keeps_refl d
  | cons slot rest ih => exact (hbody slot d).trans (ih _)

theorem queueReportLocked_restPart (report : UsbReportRecord) (d : DeveloperUsbDiagnostic) :
    (d.queueReportLocked report).2.restPart = d.restPart := by
  unfold queueReportLocked
  split
  · rfl
  · rfl

theorem pendingOf_eq_zero (h : d.pendingReports = 0) (slot : Fin usbDiagnosticMaximumReportSources) :
    pendingOf (d.reportSources slot) = 0 :=
  Finset.sum_eq_zero_iff.1 h slot (Finset.mem_univ slot)

theorem flushPendingReportLocked_of_pendingOf {slot : Fin usbDiagnosticMaximumReportSources}
    (h : pendingOf (d.reportSources slot) = 0) (nextCaptureMs : UInt64) :
    d.flushPendingReportLocked slot nextCaptureMs = ([], d) := by
  unfold flushPendingReportLocked
  split
  · rfl
  rename_i source hsource
  split
  · rfl
  · rename_i pending hpending
    rw [hsource] at h
    unfold pendingOf at h
    rw [bind_some, hpending] at h
    cases Multiset.singleton_ne_zero pending h

theorem flushPendingReportLocked_restPart (slot : Fin usbDiagnosticMaximumReportSources) (nextCaptureMs : UInt64)
    (d : DeveloperUsbDiagnostic) : (d.flushPendingReportLocked slot nextCaptureMs).2.restPart = d.restPart := by
  unfold flushPendingReportLocked
  split
  · rfl
  split
  · rfl
  · exact queueReportLocked_restPart _ d

theorem flushPendingReportLocked_keeps (slot : Fin usbDiagnosticMaximumReportSources) (nextCaptureMs : UInt64)
    (d : DeveloperUsbDiagnostic) :
    Keeps d (d.flushPendingReportLocked slot nextCaptureMs).1 (d.flushPendingReportLocked slot nextCaptureMs).2 := by
  refine keeps_of_moves (fun h => flushPendingReportLocked_accounts h slot nextCaptureMs)
    (flushPendingReportLocked_restPart slot nextCaptureMs d) ?_
  intro _ hnone
  rw [flushPendingReportLocked_of_pendingOf (pendingOf_eq_zero hnone slot)]
  exact ⟨hnone, rfl⟩

theorem setSource_keeps (slot : Fin usbDiagnosticMaximumReportSources) (source : Option UsbReportSource)
    (d : DeveloperUsbDiagnostic) (hpending : pendingOf (d.reportSources slot) = pendingOf source) :
    Keeps d [] (d.setSource slot source) := by
  refine keeps_of_moves (fun h => setSource_accounts h slot source hpending) rfl ?_
  intro _ hnone
  have hset := d.pendingReports_setSource slot source
  rw [hpending] at hset
  exact ⟨(add_right_cancel hset).trans hnone, rfl⟩

theorem resetReportSourcesForPathLocked_keeps (path : UsbDiagnosticTarget) (d : DeveloperUsbDiagnostic) :
    Keeps d (d.resetReportSourcesForPathLocked path).1 (d.resetReportSourcesForPathLocked path).2 := by
  refine overSlots_keeps ?_ _ d
  intro slot d
  unfold resetReportSource
  split
  · exact keeps_refl d
  split
  · exact keeps_refl d
  · rename_i source hsource hpath
    have hgone := (flushPendingReportLocked_keeps slot source.nextCaptureMs d).trans
      (setSource_keeps slot none _ (pendingOf_flushPendingReportLocked slot source.nextCaptureMs))
    rw [List.append_nil] at hgone
    exact hgone

theorem flushPendingReports_keeps (nowMs : UInt64) (force : Bool) (d : DeveloperUsbDiagnostic) :
    Keeps d (d.flushPendingReports nowMs force).1 (d.flushPendingReports nowMs force).2 := by
  refine overSlots_keeps ?_ _ d
  intro slot d
  unfold flushSource
  split
  · exact keeps_refl d
  split
  · exact keeps_refl d
  · exact flushPendingReportLocked_keeps slot _ d

theorem findOrAllocateReportSourceLocked_restPart (report : UsbReportRecord) (d : DeveloperUsbDiagnostic) :
    (d.findOrAllocateReportSourceLocked report).2.restPart = d.restPart := by
  unfold findOrAllocateReportSourceLocked
  dsimp only
  split
  · rfl
  split
  · rfl
  · rfl

theorem sampleReport_restPart (report : UsbReportRecord) (cut : Bool) (slot : Fin usbDiagnosticMaximumReportSources)
    (source : UsbReportSource) (d : DeveloperUsbDiagnostic) :
    (d.sampleReport report cut slot source).2.restPart = d.restPart := by
  unfold sampleReport
  split
  · rfl
  dsimp only
  split
  · split
    · exact queueReportLocked_restPart report _
    · rfl
  · rfl

theorem observeInputReport_restPart (path : UsbDiagnosticTarget) (interfaceNumber endpointAddress : UInt8)
    (data : Bytes) (nowMs : UInt64) (d : DeveloperUsbDiagnostic) :
    (d.observeInputReport path interfaceNumber endpointAddress data nowMs).2.restPart = d.restPart := by
  have hfound := findOrAllocateReportSourceLocked_restPart
    (reportRecord path interfaceNumber endpointAddress data nowMs) d
  unfold observeInputReport
  split
  · rfl
  dsimp only
  split
  · rename_i d' hnone
    rw [hnone] at hfound
    exact hfound
  · rename_i slot source d' hsome
    rw [hsome] at hfound
    split
    · rw [sampleReport_restPart, flushPendingReportLocked_restPart, hfound]
    · rw [sampleReport_restPart, hfound]

theorem observeInputReport_inactive (h : ¬ d.Active) (path : UsbDiagnosticTarget)
    (interfaceNumber endpointAddress : UInt8) (data : Bytes) (nowMs : UInt64) :
    d.observeInputReport path interfaceNumber endpointAddress data nowMs = ([], d) := by
  unfold observeInputReport
  apply if_pos
  unfold isTargetLocked
  apply decide_eq_false
  intro hboth
  exact h hboth.1

theorem observeInputReport_keeps (path : UsbDiagnosticTarget) (interfaceNumber endpointAddress : UInt8)
    (data : Bytes) (nowMs : UInt64) (d : DeveloperUsbDiagnostic) :
    Keeps d (d.observeInputReport path interfaceNumber endpointAddress data nowMs).1
      (d.observeInputReport path interfaceNumber endpointAddress data nowMs).2 := by
  refine keeps_of_moves (fun h => observeInputReport_accounts h path interfaceNumber endpointAddress data nowMs)
    (observeInputReport_restPart path interfaceNumber endpointAddress data nowMs d) ?_
  intro hinactive hnone
  rw [observeInputReport_inactive hinactive]
  exact ⟨hnone, rfl⟩

/-- The end of `observeDevice`, once the record of the device is set. -/
theorem selectObserved_keeps (device : Fin usbDiagnosticMaximumDevices) (record : UsbDeviceRecord)
    (path : UsbDiagnosticTarget) (state : UsbDiagnosticDeviceState) (d : DeveloperUsbDiagnostic) :
    Keeps d []
      (let d := if d.selectsDevice path state then d.selectDevice device record path else d
        let d :=
          if state = .removed ∧ d.mode = .connectedDevice ∧ (d.state = .waiting ∨ d.state = .capturing) ∧
              d.requestedTarget = path then
            { d with state := .waiting }
          else d
        d.queueEvent ⟨path, state⟩) := by
  have hselected : Keeps d [] (if d.selectsDevice path state then d.selectDevice device record path else d) := by
    split
    · rename_i hselects
      exact selectDevice_keeps device record path d (of_decide_eq_true hselects).2.1
    · exact keeps_refl d
  generalize (if d.selectsDevice path state = true then d.selectDevice device record path else d) = selected
    at hselected ⊢
  have hwaiting : Keeps selected []
      (if state = .removed ∧ selected.mode = .connectedDevice ∧
          (selected.state = .waiting ∨ selected.state = .capturing) ∧ selected.requestedTarget = path then
        { selected with state := .waiting }
      else selected) := by
    split
    · rename_i hgone
      exact setState_keeps hgone.2.2.1 (.inl rfl)
    · exact keeps_refl selected
  exact (hselected.trans hwaiting).trans (queueEvent_keeps ⟨path, state⟩ _)

theorem observeDevice_keeps (path : UsbDiagnosticTarget) (address speed : UInt8) (state : UsbDiagnosticDeviceState)
    (product : Option Bytes) (d : DeveloperUsbDiagnostic) :
    Keeps d (d.observeDevice path address speed state product).1
      (d.observeDevice path address speed state product).2 := by
  have hfound := findOrAllocateDeviceLocked_keeps path d
  unfold observeDevice
  split
  · rename_i d' hnone
    rw [hnone] at hfound
    exact hfound
  rename_i device record d' hsome
  rw [hsome] at hfound
  have hreset : Keeps d'
      (if state = .connected then d'.resetReportSourcesForPathLocked path else ([], d')).1
      (if state = .connected then d'.resetReportSourcesForPathLocked path else ([], d')).2 := by
    split
    · exact resetReportSourcesForPathLocked_keeps path d'
    · exact keeps_refl d'
  generalize (if state = .connected then d'.resetReportSourcesForPathLocked path else ([], d')) = reset at hreset ⊢
  obtain ⟨events, d₁⟩ := reset
  dsimp only at hreset ⊢
  have hdropped : Keeps d₁ [] (if state = .connected then d₁.dropDescriptors path else d₁) := by
    split
    · exact dropDescriptors_keeps path d₁
    · exact keeps_refl d₁
  generalize (if state = .connected then d₁.dropDescriptors path else d₁) = d₂ at hdropped ⊢
  generalize (if state = .connected then freshRecord record else record) = fresh
  generalize ({ fresh with
    snapshot := { fresh.snapshot with
      address := address, speed := speed, state := state, connected := decide (state ≠ .removed) } } :
    UsbDeviceRecord) = record
  have hset := setDevice_keeps device record d₂
  generalize d₂.setDevice device record = d₃ at hset ⊢
  have hbefore := (hfound.trans hreset).trans (hdropped.trans hset)
  cases product with
  | none =>
    have hall := hbefore.trans (selectObserved_keeps device record path state d₃)
    simp only [List.append_nil] at hall
    exact hall
  | some product =>
    have hproduct : Keeps d₃ []
        (if product ≠ [] then d₃.setProduct device record path product else (record, d₃)).2 := by
      split
      · exact setProduct_keeps device record path product d₃
      · exact keeps_refl d₃
    have hall := fun record => hbefore.trans (hproduct.trans (selectObserved_keeps device record path state _))
    simp only [List.append_nil] at hall
    exact hall _

end DeveloperUsbDiagnostic

end Bmx.Remote
