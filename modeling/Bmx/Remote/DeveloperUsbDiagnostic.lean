import Bmx.Base.Bytes
import Mathlib.Data.UInt

/-!
# The USB diagnostic

While a capture runs, the diagnostic samples the input reports of the selected devices and keeps their
descriptors in an arena. Observers and requests hold the lock from their first to their last access;
`Poll` takes it for one section at a time, and prints in between. What becomes of an input report is
told as it happens.
-/

namespace Bmx.Remote

abbrev usbDiagnosticMaximumDevices : Nat := 16
abbrev usbDiagnosticMaximumDescriptors : Nat := 64
def usbDiagnosticDescriptorBytes : Nat := 32 * 1024
abbrev usbDiagnosticReportQueueEntries : Nat := 64
abbrev usbDiagnosticEventQueueEntries : Nat := 96
abbrev usbDiagnosticMaximumReportSources : Nat := 16
def usbDiagnosticMaximumReportBytes : Nat := 64
def usbDiagnosticMaximumReports : Nat := 256
def usbDiagnosticReportSampleIntervalMs : UInt64 := 250
def usbDiagnosticDurationMs : UInt64 := 60 * 1000

inductive UsbDiagnosticState
  | idle | starting | waiting | capturing | stopping
  deriving DecidableEq

inductive UsbDiagnosticMode
  | none | newDevices | connectedDevice
  deriving DecidableEq

inductive UsbDiagnosticDeviceState
  | connected | enumerated | configured | failed | removed
  deriving DecidableEq

inductive UsbDiagnosticRequestStatus
  | accepted | busy | invalidTarget
  deriving DecidableEq

/-- A target, and the path by which a device is found. -/
structure UsbDiagnosticTarget where
  host : UInt32 := 0
  rootPort : UInt32 := 0
  route : UInt32 := 0
  deriving DecidableEq

/-- A snapshot that is `valid`. -/
structure UsbDiagnosticDeviceSnapshot where
  connected : Bool := false
  state : UsbDiagnosticDeviceState := .connected
  path : UsbDiagnosticTarget
  address : UInt8 := 0
  speed : UInt8 := 0
  vendorId : UInt16 := 0
  productId : UInt16 := 0
  product : Bytes := []
  descriptorBytes : UInt32 := 0
  truncated : Bool := false
  deriving DecidableEq

structure UsbDeviceRecord where
  snapshot : UsbDiagnosticDeviceSnapshot
  sessionGeneration : UInt32 := 0

/-- A record that is `valid`. -/
structure UsbDescriptorRecord where
  path : UsbDiagnosticTarget
  type : UInt8
  index : UInt8
  requestIndex : UInt16
  offset : Nat := 0
  size : Nat := 0
  originalSize : UInt32 := 0
  success : Bool := false
  truncated : Bool := false
  deriving DecidableEq

structure UsbReportRecord where
  timestampMs : UInt64
  path : UsbDiagnosticTarget
  interfaceNumber : UInt8
  endpointAddress : UInt8
  originalSize : UInt16
  bytes : Bytes
  deriving DecidableEq

/-- A source that is `valid`. The last report and the pending one are there when their flags are set. -/
structure UsbReportSource where
  path : UsbDiagnosticTarget
  interfaceNumber : UInt8
  endpointAddress : UInt8
  last : Option (Bytes × UInt16) := none
  nextCaptureMs : UInt64 := 0
  pending : Option UsbReportRecord := none

structure UsbDeviceEvent where
  path : UsbDiagnosticTarget
  state : UsbDiagnosticDeviceState

/-- The members. Slots of devices, descriptors and sources are taken where they are `valid`. -/
structure DeveloperUsbDiagnostic where
  state : UsbDiagnosticState
  mode : UsbDiagnosticMode
  requestedTarget : UsbDiagnosticTarget
  firstTarget : Option UsbDiagnosticTarget
  stopDueToTimeout : Bool
  sessionStarted : Bool
  stopAfterStart : Bool
  startMs : UInt64
  deadlineMs : UInt64
  sessionGeneration : UInt32
  devicesSeen : UInt32
  descriptorBytesEmitted : UInt32
  reportsEmitted : UInt32
  reportsDropped : UInt32
  reportsDuplicates : UInt32
  reportsCoalesced : UInt32
  truncated : Bool
  devices : Fin usbDiagnosticMaximumDevices → Option UsbDeviceRecord
  descriptors : Fin usbDiagnosticMaximumDescriptors → Option UsbDescriptorRecord
  reports : Fin usbDiagnosticReportQueueEntries → UsbReportRecord
  reportSources : Fin usbDiagnosticMaximumReportSources → Option UsbReportSource
  events : Fin usbDiagnosticEventQueueEntries → UsbDeviceEvent
  descriptorStorage : Nat → UInt8
  descriptorStorageUsed : Nat
  reportRead : Nat
  reportWrite : Nat
  reportCount : Nat
  eventRead : Nat
  eventWrite : Nat
  eventCount : Nat

/-- What becomes of an input report. -/
inductive UsbReportFate
  | observed | emitted | duplicate | coalesced | dropped
  deriving DecidableEq

structure UsbReportEvent where
  fate : UsbReportFate
  report : UsbReportRecord

/-- `IncrementCounter`, which stops at the largest number. -/
def incrementCounter (counter : UInt32) : UInt32 := if counter ≠ 0xFFFFFFFF then counter + 1 else counter

def productCapacity : Nat := 64

/-- `CopyProduct` into the product of a snapshot, and whether the source was cut. -/
def copyProduct (source : Bytes) : Bytes × Bool :=
  ((source.take (productCapacity - 1)).map fun value => if value ≥ 32 ∧ value ≠ 127 then value else 63,
    decide (source.length > productCapacity - 1))

namespace DeveloperUsbDiagnostic

def init : DeveloperUsbDiagnostic where
  state := .idle
  mode := .none
  requestedTarget := {}
  firstTarget := none
  stopDueToTimeout := false
  sessionStarted := false
  stopAfterStart := false
  startMs := 0
  deadlineMs := 0
  sessionGeneration := 0
  devicesSeen := 0
  descriptorBytesEmitted := 0
  reportsEmitted := 0
  reportsDropped := 0
  reportsDuplicates := 0
  reportsCoalesced := 0
  truncated := false
  devices := fun _ => none
  descriptors := fun _ => none
  reports := fun _ => ⟨0, {}, 0, 0, 0, []⟩
  reportSources := fun _ => none
  events := fun _ => ⟨{}, .connected⟩
  descriptorStorage := fun _ => 0
  descriptorStorageUsed := 0
  reportRead := 0
  reportWrite := 0
  reportCount := 0
  eventRead := 0
  eventWrite := 0
  eventCount := 0

/-! ### Devices -/

def findDeviceLocked (path : UsbDiagnosticTarget) (d : DeveloperUsbDiagnostic) :
    Option (Fin usbDiagnosticMaximumDevices) :=
  (List.finRange usbDiagnosticMaximumDevices).find? fun slot =>
    (d.devices slot).any fun record => record.snapshot.path = path

/-- The first slot that is free, or else the first of a device that is gone. -/
def deviceCandidate (d : DeveloperUsbDiagnostic) : Option (Fin usbDiagnosticMaximumDevices) :=
  ((List.finRange usbDiagnosticMaximumDevices).find? fun slot => (d.devices slot).isNone).or
    ((List.finRange usbDiagnosticMaximumDevices).find? fun slot =>
      (d.devices slot).any fun record => record.snapshot.connected = false)

def dropDescriptors (path : UsbDiagnosticTarget) (d : DeveloperUsbDiagnostic) : DeveloperUsbDiagnostic :=
  { d with
    descriptors := fun slot => (d.descriptors slot).filter fun record => record.path ≠ path }

def setDevice (slot : Fin usbDiagnosticMaximumDevices) (record : UsbDeviceRecord) (d : DeveloperUsbDiagnostic) :
    DeveloperUsbDiagnostic := { d with devices := Function.update d.devices slot (some record) }

/-- The record of a device, found or newly made. -/
def findOrAllocateDeviceLocked (path : UsbDiagnosticTarget) (d : DeveloperUsbDiagnostic) :
    Option (Fin usbDiagnosticMaximumDevices × UsbDeviceRecord) × DeveloperUsbDiagnostic :=
  match (d.findDeviceLocked path).bind fun slot => (d.devices slot).map fun record => (slot, record) with
  | some found => (some found, d)
  | none =>
    match d.deviceCandidate with
    | none => (none, { d with truncated := true })
    | some slot =>
      let dropped :=
        match d.devices slot with
        | some old => d.dropDescriptors old.snapshot.path
        | none => d
      let record : UsbDeviceRecord := { snapshot := { path := path } }
      (some (slot, record), dropped.setDevice slot record)

def matchesSelectedDeviceLocked (path : UsbDiagnosticTarget) (d : DeveloperUsbDiagnostic) : Bool :=
  if d.sessionStarted = false then false
  else if d.mode = .connectedDevice then d.requestedTarget = path
  else
    d.mode = .newDevices ∧
      ((d.findDeviceLocked path).bind d.devices).any fun record => record.sessionGeneration = d.sessionGeneration

def isTargetLocked (path : UsbDiagnosticTarget) (d : DeveloperUsbDiagnostic) : Bool :=
  (d.state = .waiting ∨ d.state = .capturing) ∧ d.matchesSelectedDeviceLocked path

/-! ### Reports -/

def setSource (slot : Fin usbDiagnosticMaximumReportSources) (source : Option UsbReportSource)
    (d : DeveloperUsbDiagnostic) : DeveloperUsbDiagnostic :=
  { d with reportSources := Function.update d.reportSources slot source }

def queueReportLocked (report : UsbReportRecord) (d : DeveloperUsbDiagnostic) :
    List UsbReportEvent × DeveloperUsbDiagnostic :=
  if d.reportsEmitted.toNat + d.reportCount ≥ usbDiagnosticMaximumReports ∨
      d.reportCount = usbDiagnosticReportQueueEntries then
    ([⟨.dropped, report⟩], { d with reportsDropped := incrementCounter d.reportsDropped, truncated := true })
  else
    ([],
      { d with
        reports := Function.update d.reports (Fin.ofNat usbDiagnosticReportQueueEntries d.reportWrite) report
        reportWrite := (d.reportWrite + 1) % usbDiagnosticReportQueueEntries
        reportCount := d.reportCount + 1 })

/-- `FlushPendingReportLocked`, for the source in a slot. -/
def flushPendingReportLocked (slot : Fin usbDiagnosticMaximumReportSources) (nextCaptureMs : UInt64)
    (d : DeveloperUsbDiagnostic) : List UsbReportEvent × DeveloperUsbDiagnostic :=
  match d.reportSources slot with
  | none => ([], d)
  | some source =>
    match source.pending with
    | none => ([], d)
    | some pending =>
      let (events, d) := d.queueReportLocked pending
      (events, d.setSource slot (some { source with pending := none, nextCaptureMs := nextCaptureMs }))

def overSlots {n : Nat} (body : Fin n → DeveloperUsbDiagnostic → List UsbReportEvent × DeveloperUsbDiagnostic) :
    List (Fin n) → DeveloperUsbDiagnostic → List UsbReportEvent × DeveloperUsbDiagnostic
  | [], d => ([], d)
  | slot :: rest, d =>
    let (events, d) := body slot d
    let (later, d) := overSlots body rest d
    (events ++ later, d)

def resetReportSource (path : UsbDiagnosticTarget) (slot : Fin usbDiagnosticMaximumReportSources)
    (d : DeveloperUsbDiagnostic) : List UsbReportEvent × DeveloperUsbDiagnostic :=
  match d.reportSources slot with
  | none => ([], d)
  | some source =>
    if source.path ≠ path then ([], d)
    else
      let (events, d) := d.flushPendingReportLocked slot source.nextCaptureMs
      (events, d.setSource slot none)

def resetReportSourcesForPathLocked (path : UsbDiagnosticTarget) (d : DeveloperUsbDiagnostic) :
    List UsbReportEvent × DeveloperUsbDiagnostic :=
  overSlots (resetReportSource path) (List.finRange usbDiagnosticMaximumReportSources) d

def UsbReportSource.isFor (path : UsbDiagnosticTarget) (interfaceNumber endpointAddress : UInt8)
    (source : UsbReportSource) : Bool :=
  source.path = path ∧ source.interfaceNumber = interfaceNumber ∧ source.endpointAddress = endpointAddress

/-- The slot of the source of a report, found or newly made; `none` drops the report. -/
def findOrAllocateReportSourceLocked (report : UsbReportRecord) (d : DeveloperUsbDiagnostic) :
    Option (Fin usbDiagnosticMaximumReportSources × UsbReportSource) × DeveloperUsbDiagnostic :=
  let slots := List.finRange usbDiagnosticMaximumReportSources
  let found := slots.find? fun slot => (d.reportSources slot).any fun source =>
    UsbReportSource.isFor report.path report.interfaceNumber report.endpointAddress source
  match found.bind fun slot => (d.reportSources slot).map fun source => (slot, source) with
  | some found => (some found, d)
  | none =>
    match slots.find? fun slot => (d.reportSources slot).isNone with
    | none => (none, { d with reportsDropped := incrementCounter d.reportsDropped, truncated := true })
    | some slot =>
      let source : UsbReportSource := ⟨report.path, report.interfaceNumber, report.endpointAddress, none, 0, none⟩
      (some (slot, source), d.setSource slot (some source))

def reportRecord (path : UsbDiagnosticTarget) (interfaceNumber endpointAddress : UInt8) (data : Bytes)
    (nowMs : UInt64) : UsbReportRecord where
  timestampMs := nowMs
  path := path
  interfaceNumber := interfaceNumber
  endpointAddress := endpointAddress
  originalSize := if data.length > 65535 then 65535 else UInt16.ofNat data.length
  bytes := data.take usbDiagnosticMaximumReportBytes

/-- `ObserveInputReport` after the source was found: the report is compared with the last one, and it is
queued or becomes the pending one. -/
def sampleReport (report : UsbReportRecord) (cut : Bool) (slot : Fin usbDiagnosticMaximumReportSources)
    (source : UsbReportSource) (d : DeveloperUsbDiagnostic) : List UsbReportEvent × DeveloperUsbDiagnostic :=
  if cut = false ∧ source.last = some (report.bytes, report.originalSize) then
    ([⟨.observed, report⟩, ⟨.duplicate, report⟩],
      { d with reportsDuplicates := incrementCounter d.reportsDuplicates })
  else
    let source := { source with last := some (report.bytes, report.originalSize) }
    let d := { d with truncated := d.truncated || cut }
    match source.pending with
    | none =>
      if report.timestampMs ≥ source.nextCaptureMs then
        let (events, d) := d.queueReportLocked report
        (⟨.observed, report⟩ :: events, d.setSource slot
          (some { source with nextCaptureMs := report.timestampMs + usbDiagnosticReportSampleIntervalMs }))
      else ([⟨.observed, report⟩], d.setSource slot (some { source with pending := some report }))
    | some pending =>
      let d := { d with reportsCoalesced := incrementCounter d.reportsCoalesced }
      ([⟨.observed, report⟩, ⟨.coalesced, pending⟩], d.setSource slot (some { source with pending := some report }))

def observeInputReport (path : UsbDiagnosticTarget) (interfaceNumber endpointAddress : UInt8) (data : Bytes)
    (nowMs : UInt64) (d : DeveloperUsbDiagnostic) : List UsbReportEvent × DeveloperUsbDiagnostic :=
  if d.isTargetLocked path = false then ([], d)
  else
    let report := reportRecord path interfaceNumber endpointAddress data nowMs
    match d.findOrAllocateReportSourceLocked report with
    | (none, d) => ([⟨.observed, report⟩, ⟨.dropped, report⟩], d)
    | (some (slot, source), d) =>
      let (flushed, d) :=
        if source.pending.isSome ∧ nowMs ≥ source.nextCaptureMs then
          d.flushPendingReportLocked slot (nowMs + usbDiagnosticReportSampleIntervalMs)
        else ([], d)
      let (events, d) := d.sampleReport report (data.length > usbDiagnosticMaximumReportBytes) slot
        ((d.reportSources slot).getD source)
      (flushed ++ events, d)

/-- The body of `FlushPendingReports`. -/
def flushSource (nowMs : UInt64) (force : Bool) (slot : Fin usbDiagnosticMaximumReportSources)
    (d : DeveloperUsbDiagnostic) : List UsbReportEvent × DeveloperUsbDiagnostic :=
  match d.reportSources slot with
  | none => ([], d)
  | some source =>
    if force = false ∧ nowMs < source.nextCaptureMs then ([], d)
    else d.flushPendingReportLocked slot (nowMs + usbDiagnosticReportSampleIntervalMs)

def flushPendingReports (nowMs : UInt64) (force : Bool) (d : DeveloperUsbDiagnostic) :
    List UsbReportEvent × DeveloperUsbDiagnostic :=
  overSlots (flushSource nowMs force) (List.finRange usbDiagnosticMaximumReportSources) d

def reportAt (place : Nat) (d : DeveloperUsbDiagnostic) : UsbReportRecord :=
  d.reports (Fin.ofNat usbDiagnosticReportQueueEntries place)

/-- A section of `DrainReports`, and whether there was a report. -/
def drainReport (d : DeveloperUsbDiagnostic) : Bool × List UsbReportEvent × DeveloperUsbDiagnostic :=
  if d.reportCount ≠ 0 ∧ d.reportsEmitted.toNat < usbDiagnosticMaximumReports then
    (true, [⟨.emitted, d.reportAt d.reportRead⟩],
      { d with
        reportRead := (d.reportRead + 1) % usbDiagnosticReportQueueEntries
        reportCount := d.reportCount - 1
        reportsEmitted := d.reportsEmitted + 1 })
  else (false, [], d)

/-! ### Descriptors -/

/-- How much of a descriptor is to be kept. -/
def retainedSize (requestedSize : Nat) (resultSize : Int) : Nat := min (min resultSize.toNat requestedSize) 4096

/-- The record of a descriptor in its slot, found or newly made. -/
def findOrAllocateDescriptor (path : UsbDiagnosticTarget) (type index : UInt8) (requestIndex : UInt16)
    (d : DeveloperUsbDiagnostic) : Option (Fin usbDiagnosticMaximumDescriptors × UsbDescriptorRecord) :=
  let slots := List.finRange usbDiagnosticMaximumDescriptors
  let found := slots.find? fun slot => (d.descriptors slot).any fun record =>
    record.path = path ∧ record.type = type ∧ record.index = index ∧ record.requestIndex = requestIndex
  match found.bind fun slot => (d.descriptors slot).map fun record => (slot, record) with
  | some found => some found
  | none =>
    (slots.find? fun slot => (d.descriptors slot).isNone).map fun slot =>
      (slot, { path := path, type := type, index := index, requestIndex := requestIndex })

/-- Where a descriptor is kept: its old place where that has room for it, or a new one behind all others.
The new place may be too small. -/
def placeDescriptor (record : UsbDescriptorRecord) (retained used : Nat) : Nat × Nat × Nat :=
  if record.size ≥ retained ∧ record.size ≠ 0 then (record.offset, retained, used)
  else if retained = 0 then (record.offset, retained, used)
  else
    let kept := min retained (usbDiagnosticDescriptorBytes - used)
    (used, kept, used + kept)

/-- `memcpy` into the arena. Without data nothing is copied. -/
def copyDescriptor (offset size : Nat) (data : Option Bytes) (storage : Nat → UInt8) : Nat → UInt8 :=
  match data with
  | none => storage
  | some data => fun place => if offset ≤ place ∧ place < offset + size then data.getD (place - offset) 0 else storage place

def descriptorTotal (path : UsbDiagnosticTarget) (d : DeveloperUsbDiagnostic) : UInt32 :=
  ((List.finRange usbDiagnosticMaximumDescriptors).map fun slot =>
    match d.descriptors slot with
    | some record => if record.path = path then UInt32.ofNat record.size else 0
    | none => 0).sum

def littleEndian16 (low high : UInt8) : UInt16 := low.toUInt16 ||| (high.toUInt16 <<< 8)

def observeDescriptor (path : UsbDiagnosticTarget) (type index : UInt8) (requestIndex : UInt16)
    (data : Option Bytes) (requestedSize : Nat) (resultSize : Int) (d : DeveloperUsbDiagnostic) :
    DeveloperUsbDiagnostic :=
  match d.findOrAllocateDeviceLocked path with
  | (none, d) => d
  | (some (device, deviceRecord), d) =>
    match d.findOrAllocateDescriptor path type index requestIndex with
    | none =>
      { (d.setDevice device { deviceRecord with
          snapshot := { deviceRecord.snapshot with truncated := true } }) with
        truncated := true }
    | some (slot, record) =>
      let available := min resultSize.toNat requestedSize
      let (offset, size, used) :=
        placeDescriptor record (retainedSize requestedSize resultSize) d.descriptorStorageUsed
      let cut : Bool := size ≠ available
      let record := { record with
        offset := offset
        size := size
        originalSize := if resultSize ≥ 0 then UInt32.ofNat resultSize.toNat else UInt32.ofNat requestedSize
        success := resultSize ≥ 0
        truncated := cut }
      let d := { d with
        descriptors := Function.update d.descriptors slot (some record)
        descriptorStorage := copyDescriptor offset size data d.descriptorStorage
        descriptorStorageUsed := used
        truncated := d.truncated || cut }
      let snapshot := { deviceRecord.snapshot with
        truncated := deviceRecord.snapshot.truncated || cut
        descriptorBytes := d.descriptorTotal path }
      let snapshot :=
        if type = 1 ∧ size ≥ 12 then
          { snapshot with
            vendorId := littleEndian16 (d.descriptorStorage (offset + 8)) (d.descriptorStorage (offset + 9))
            productId := littleEndian16 (d.descriptorStorage (offset + 10)) (d.descriptorStorage (offset + 11)) }
        else snapshot
      d.setDevice device { deviceRecord with snapshot := snapshot }

/-! ### Devices that come and go -/

/-- Put a product into a snapshot. -/
def setProduct (device : Fin usbDiagnosticMaximumDevices) (record : UsbDeviceRecord) (path : UsbDiagnosticTarget)
    (product : Bytes) (d : DeveloperUsbDiagnostic) : UsbDeviceRecord × DeveloperUsbDiagnostic :=
  let (copied, cut) := copyProduct product
  let record := { record with
    snapshot := { record.snapshot with product := copied, truncated := record.snapshot.truncated || cut } }
  let d := d.setDevice device record
  (record, { d with truncated := d.truncated || (cut && d.isTargetLocked path) })

def freshRecord (record : UsbDeviceRecord) : UsbDeviceRecord :=
  { record with
    snapshot := { record.snapshot with
      vendorId := 0, productId := 0, product := [], descriptorBytes := 0, truncated := false } }

def selectsDevice (path : UsbDiagnosticTarget) (state : UsbDiagnosticDeviceState) (d : DeveloperUsbDiagnostic) :
    Bool :=
  state ≠ .removed ∧ (d.state = .waiting ∨ d.state = .capturing) ∧
    ((d.mode = .connectedDevice ∧ d.requestedTarget = path) ∨ (d.mode = .newDevices ∧ state = .connected))

def selectDevice (device : Fin usbDiagnosticMaximumDevices) (record : UsbDeviceRecord) (path : UsbDiagnosticTarget)
    (d : DeveloperUsbDiagnostic) : DeveloperUsbDiagnostic :=
  let d :=
    if record.sessionGeneration ≠ d.sessionGeneration then
      { (d.setDevice device { record with sessionGeneration := d.sessionGeneration }) with
        devicesSeen := d.devicesSeen + 1
        firstTarget := d.firstTarget.or (some path) }
    else d
  { d with state := .capturing }

def queueEvent (event : UsbDeviceEvent) (d : DeveloperUsbDiagnostic) : DeveloperUsbDiagnostic :=
  if d.eventCount < usbDiagnosticEventQueueEntries then
    { d with
      events := Function.update d.events (Fin.ofNat usbDiagnosticEventQueueEntries d.eventWrite) event
      eventWrite := (d.eventWrite + 1) % usbDiagnosticEventQueueEntries
      eventCount := d.eventCount + 1 }
  else { d with truncated := d.truncated || d.isTargetLocked event.path }

def observeDevice (path : UsbDiagnosticTarget) (address speed : UInt8) (state : UsbDiagnosticDeviceState)
    (product : Option Bytes) (d : DeveloperUsbDiagnostic) : List UsbReportEvent × DeveloperUsbDiagnostic :=
  match d.findOrAllocateDeviceLocked path with
  | (none, d) => ([], d)
  | (some (device, record), d) =>
    let (events, d) :=
      if state = .connected then d.resetReportSourcesForPathLocked path else ([], d)
    let d := if state = .connected then d.dropDescriptors path else d
    let record := if state = .connected then freshRecord record else record
    let record := { record with
      snapshot := { record.snapshot with
        address := address, speed := speed, state := state, connected := state ≠ .removed } }
    let d := d.setDevice device record
    let (record, d) :=
      match product with
      | some product => if product ≠ [] then d.setProduct device record path product else (record, d)
      | none => (record, d)
    let d := if d.selectsDevice path state then d.selectDevice device record path else d
    let d :=
      if state = .removed ∧ d.mode = .connectedDevice ∧ (d.state = .waiting ∨ d.state = .capturing) ∧
          d.requestedTarget = path then
        { d with state := .waiting }
      else d
    (events, d.queueEvent ⟨path, state⟩)

def observeProduct (path : UsbDiagnosticTarget) (product : Option Bytes) (d : DeveloperUsbDiagnostic) :
    DeveloperUsbDiagnostic :=
  match d.findOrAllocateDeviceLocked path with
  | (none, d) => d
  | (some (device, record), d) => (d.setProduct device record path (product.getD [])).2

/-! ### Requests -/

/-- What both ways to start a capture reset. -/
def requestStart (mode : UsbDiagnosticMode) (target : UsbDiagnosticTarget) (d : DeveloperUsbDiagnostic) :
    DeveloperUsbDiagnostic :=
  { d with
    mode := mode
    requestedTarget := target
    stopAfterStart := false
    devicesSeen := 0
    descriptorBytesEmitted := 0
    reportsEmitted := 0
    reportsDropped := 0
    reportsDuplicates := 0
    reportsCoalesced := 0
    truncated := false
    state := .starting }

def requestStartNew (d : DeveloperUsbDiagnostic) : UsbDiagnosticRequestStatus × DeveloperUsbDiagnostic :=
  if d.state ≠ .idle then (.busy, d) else (.accepted, d.requestStart .newDevices {})

def requestStartConnected (path : UsbDiagnosticTarget) (d : DeveloperUsbDiagnostic) :
    UsbDiagnosticRequestStatus × DeveloperUsbDiagnostic :=
  if d.state ≠ .idle then (.busy, d)
  else if d.findDeviceLocked path = none then (.invalidTarget, d)
  else (.accepted, d.requestStart .connectedDevice path)

def requestStop (d : DeveloperUsbDiagnostic) : DeveloperUsbDiagnostic :=
  if d.state = .starting then { d with stopAfterStart := true, stopDueToTimeout := false }
  else if d.state = .waiting ∨ d.state = .capturing then { d with state := .stopping, stopDueToTimeout := false }
  else d

/-- `++session_generation_`, which leaves out 0. -/
def followingGeneration (generation : UInt32) : UInt32 := if generation + 1 = 0 then 1 else generation + 1

def beginLocked (nowMs : UInt64) (d : DeveloperUsbDiagnostic) : DeveloperUsbDiagnostic :=
  let generation := followingGeneration d.sessionGeneration
  let d : DeveloperUsbDiagnostic := { d with
    sessionGeneration := generation
    startMs := nowMs
    deadlineMs := nowMs + usbDiagnosticDurationMs
    sessionStarted := true
    firstTarget := none
    stopDueToTimeout := false
    devicesSeen := 0
    descriptorBytesEmitted := 0
    reportsEmitted := 0
    reportsDropped := 0
    reportsDuplicates := 0
    reportsCoalesced := 0
    truncated := false
    reportRead := 0
    reportWrite := 0
    reportCount := 0
    reportSources := fun _ => none
    eventRead := 0
    eventWrite := 0
    eventCount := 0
    devices := fun slot => (d.devices slot).map fun record => { record with sessionGeneration := 0 } }
  let target := if d.mode = .connectedDevice then d.findDeviceLocked d.requestedTarget else none
  match target.bind fun slot => (d.devices slot).map fun record => (slot, record) with
  | some (slot, record) =>
    if record.snapshot.connected then
      { (d.setDevice slot { record with sessionGeneration := generation }) with
        firstTarget := some d.requestedTarget
        devicesSeen := 1
        state := .capturing }
    else { d with state := .waiting }
  | none => { d with state := .waiting }

def finishLocked (d : DeveloperUsbDiagnostic) : DeveloperUsbDiagnostic :=
  { d with
    state := .idle
    mode := .none
    requestedTarget := {}
    firstTarget := none
    sessionStarted := false
    stopAfterStart := false
    deadlineMs := 0
    reportRead := 0
    reportWrite := 0
    reportCount := 0
    reportSources := fun _ => none
    eventRead := 0
    eventWrite := 0
    eventCount := 0 }

end DeveloperUsbDiagnostic

end Bmx.Remote
