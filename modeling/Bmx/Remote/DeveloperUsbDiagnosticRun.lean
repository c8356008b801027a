import Bmx.Remote.DeveloperUsbDiagnostic

/-!
# Runs of the USB diagnostic

One task polls the diagnostic, and between two sections of a poll observers and requests take their
turns. What becomes of the input reports of a session is kept beside the diagnostic, from its request
to the next.
-/

namespace Bmx.Remote

/-- Where `DumpDevice` is. `indices` are the descriptors still to be dumped. -/
inductive UsbDumpPoint
  | device (path : UsbDiagnosticTarget)
  | truncated (indices : List (Fin usbDiagnosticMaximumDescriptors))
  | descriptors (indices : List (Fin usbDiagnosticMaximumDescriptors))
  | bytes (record : UsbDescriptorRecord) (offset : Nat) (indices : List (Fin usbDiagnosticMaximumDescriptors))
  | counted (record : UsbDescriptorRecord) (offset : Nat) (indices : List (Fin usbDiagnosticMaximumDescriptors))
  deriving DecidableEq

/-- What a poll does after a dump. `stopping` is the second round, of a session that is to stop. -/
inductive UsbPollStage
  | flush
  | events (stopping : Bool)
  deriving DecidableEq

/-- Where `Poll` is. -/
inductive UsbPollPoint
  | outside
  | dumping (dump : UsbDumpPoint) (after : UsbPollStage) (nowMs : UInt64)
  | flush (stopping : Bool) (nowMs : UInt64)
  | events (stopping : Bool) (nowMs : UInt64)
  | reports (stopping : Bool) (nowMs : UInt64)
  | check (nowMs : UInt64)
  | summary
  | finish

namespace DeveloperUsbDiagnostic

/-- A section of `DumpDevice`, and where it goes on; `none` is its end. -/
def dumpSection (point : UsbDumpPoint) (d : DeveloperUsbDiagnostic) : Option UsbDumpPoint × DeveloperUsbDiagnostic :=
  match point with
  | .device path =>
    let indices := (List.finRange usbDiagnosticMaximumDescriptors).filter fun slot =>
      (d.descriptors slot).any fun record => record.path = path
    match (d.findDeviceLocked path).bind d.devices with
    | none => (none, d)
    | some record => (some (if record.snapshot.truncated then .truncated indices else .descriptors indices), d)
  | .truncated indices => (some (.descriptors indices), { d with truncated := true })
  | .descriptors [] => (none, d)
  | .descriptors (slot :: rest) =>
    match d.descriptors slot with
    | none => (some (.descriptors rest), d)
    | some record =>
      (some (if record.size = 0 then .descriptors rest else .bytes record 0 rest),
        { d with truncated := d.truncated || record.truncated })
  | .bytes record offset rest => (some (.counted record offset rest), d)
  | .counted record offset rest =>
    let next := offset + 16
    (some (if next < record.size then .bytes record next rest else .descriptors rest),
      { d with descriptorBytesEmitted := d.descriptorBytesEmitted + UInt32.ofNat (min 16 (record.size - offset)) })

/-- The first section of a poll, and the device that is dumped when a session begins. -/
def pollBegin (nowMs : UInt64) (d : DeveloperUsbDiagnostic) : Option UsbDiagnosticTarget × DeveloperUsbDiagnostic :=
  let (dump, d) :=
    if d.state = .starting then
      let d := d.beginLocked nowMs
      (d.firstTarget, if d.stopAfterStart then { d with state := .stopping } else d)
    else (none, d)
  if (d.state = .waiting ∨ d.state = .capturing) ∧ nowMs ≥ d.deadlineMs then
    (dump, { d with state := .stopping, stopDueToTimeout := true })
  else (dump, d)

/-- A section of `DrainEvents`: whether there was an event, and the device that is dumped. -/
def drainEvent (d : DeveloperUsbDiagnostic) : (Bool × Option UsbDiagnosticTarget) × DeveloperUsbDiagnostic :=
  if d.eventCount ≠ 0 then
    let event := d.events ⟨d.eventRead % usbDiagnosticEventQueueEntries, Nat.mod_lt _ (by decide)⟩
    let target := d.matchesSelectedDeviceLocked event.path
    ((true, if target ∧ (event.state = .configured ∨ event.state = .failed) then some event.path else none),
      { d with
        eventRead := (d.eventRead + 1) % usbDiagnosticEventQueueEntries
        eventCount := d.eventCount - 1 })
  else ((false, none), d)

end DeveloperUsbDiagnostic

/-- The diagnostic, the poll that is going on, and what became of the reports of the session. -/
structure UsbRun where
  diagnostic : DeveloperUsbDiagnostic := .init
  poll : UsbPollPoint := .outside
  session : List UsbReportEvent := []

inductive UsbAction
  | requestStartNew
  | requestStartConnected (path : UsbDiagnosticTarget)
  | requestStop
  | poll (nowMs : UInt64)
  | observeDevice (path : UsbDiagnosticTarget) (address speed : UInt8) (state : UsbDiagnosticDeviceState)
      (product : Option Bytes)
  | observeProduct (path : UsbDiagnosticTarget) (product : Option Bytes)
  | observeDescriptor (path : UsbDiagnosticTarget) (type index : UInt8) (requestIndex : UInt16)
      (data : Option Bytes) (requestedSize : Nat) (resultSize : Int)
  | observeInputReport (path : UsbDiagnosticTarget) (interfaceNumber endpointAddress : UInt8) (data : Bytes)
      (nowMs : UInt64)

namespace UsbRun

/-- Where a poll goes on after a dump. -/
def resume (stage : UsbPollStage) (nowMs : UInt64) : UsbPollPoint :=
  match stage with
  | .flush => .flush false nowMs
  | .events stopping => .events stopping nowMs

/-- The next section of a poll. A poll that is not going on begins at `nowMs`. -/
def pollSection (nowMs : UInt64) (r : UsbRun) : UsbRun :=
  match r.poll with
  | .outside =>
    let (dump, d) := r.diagnostic.pollBegin nowMs
    { diagnostic := d
      poll :=
        match dump with
        | some path => .dumping (.device path) .flush nowMs
        | none => .flush false nowMs
      session := if r.diagnostic.state = .starting then [] else r.session }
  | .dumping dump after nowMs =>
    let (next, d) := r.diagnostic.dumpSection dump
    { r with
      diagnostic := d
      poll :=
        match next with
        | some dump => .dumping dump after nowMs
        | none => resume after nowMs }
  | .flush stopping nowMs =>
    let (events, d) := r.diagnostic.flushPendingReports nowMs stopping
    ⟨d, .events stopping nowMs, r.session ++ events⟩
  | .events stopping nowMs =>
    let ((available, dump), d) := r.diagnostic.drainEvent
    { r with
      diagnostic := d
      poll :=
        if available = false then .reports stopping nowMs
        else
          match dump with
          | some path => .dumping (.device path) (.events stopping) nowMs
          | none => .events stopping nowMs }
  | .reports stopping nowMs =>
    let (available, events, d) := r.diagnostic.drainReport
    ⟨d, if available then .reports stopping nowMs else if stopping then .summary else .check nowMs,
      r.session ++ events⟩
  | .check nowMs => { r with poll := if r.diagnostic.state = .stopping then .flush true nowMs else .outside }
  | .summary => { r with poll := if r.diagnostic.state = .stopping then .finish else .outside }
  | .finish =>
    { r with
      diagnostic := if r.diagnostic.state = .stopping then r.diagnostic.finishLocked else r.diagnostic
      poll := .outside }

def step (action : UsbAction) (r : UsbRun) : UsbRun :=
  match action with
  | .requestStartNew =>
    let (status, d) := r.diagnostic.requestStartNew
    { r with diagnostic := d, session := if status = .accepted then [] else r.session }
  | .requestStartConnected path =>
    let (status, d) := r.diagnostic.requestStartConnected path
    { r with diagnostic := d, session := if status = .accepted then [] else r.session }
  | .requestStop => { r with diagnostic := r.diagnostic.requestStop }
  | .poll nowMs => r.pollSection nowMs
  | .observeDevice path address speed state product =>
    let (events, d) := r.diagnostic.observeDevice path address speed state product
    { r with diagnostic := d, session := r.session ++ events }
  | .observeProduct path product => { r with diagnostic := r.diagnostic.observeProduct path product }
  | .observeDescriptor path type index requestIndex data requestedSize resultSize =>
    { r with
      diagnostic := r.diagnostic.observeDescriptor path type index requestIndex data requestedSize resultSize }
  | .observeInputReport path interfaceNumber endpointAddress data nowMs =>
    let (events, d) := r.diagnostic.observeInputReport path interfaceNumber endpointAddress data nowMs
    { r with diagnostic := d, session := r.session ++ events }

def run (actions : List UsbAction) (r : UsbRun) : UsbRun := actions.foldl (fun r action => r.step action) r

end UsbRun

end Bmx.Remote
