import Bmx.Base.Bytes

/-!
# The log collector of the developer UI

The browser reads the kernel log in pieces and keeps what lies between the marker lines of a USB diagnosis. A line
is looked at when its line feed is read. Of a line that gets too long before that, all but the last bytes are
looked at early.
-/

namespace Bmx.Remote

def usbDiagnosticBegin : Bytes := ascii "usbdiag: BEGIN "
def usbDiagnosticEnd : Bytes := ascii "usbdiag: END "

def startsWithBytes (value start : Bytes) : Bool := start.isPrefixOf value

/-- What one call reports. -/
structure UsbLogEvent where
  reset : Bool := false
  chunks : List Bytes := []
  completed : Bool := false

structure UsbDiagnosticLogCollector where
  maxBytes : Nat
  pendingLimit : Nat
  pending : Bytes := []
  pendingAtLineStart : Bool := true
  /-- The bytes of the storage that are used. -/
  stored : Bytes := []
  received : Nat := 0
  dropped : Nat := 0
  seenBegin : Bool := false
  active : Bool := false
  complete : Bool := false
  truncated : Bool := false

namespace UsbDiagnosticLogCollector

/-- The constructor. -/
def create (maxBytes pendingLimit : Int) : Except String UsbDiagnosticLogCollector :=
  if maxBytes ≤ 0 then .error "USB-Diagnosepuffergröße muss positiv sein."
  else if pendingLimit < 64 then .error "USB-Diagnose-Zeilenpuffer ist zu klein."
  else .ok { maxBytes := maxBytes.toNat, pendingLimit := pendingLimit.toNat }

def beginSection (c : UsbDiagnosticLogCollector) : UsbDiagnosticLogCollector × UsbLogEvent :=
  ({ c with
      stored := [], received := 0, dropped := 0, seenBegin := true, active := true, complete := false
      truncated := false },
    { reset := true, chunks := [], completed := false })

def store (value : Bytes) (c : UsbDiagnosticLogCollector) : UsbDiagnosticLogCollector :=
  let amount := min (c.maxBytes - c.stored.length) value.length
  let next := { c with received := c.received + value.length, stored := c.stored ++ value.take amount }
  if amount ≠ value.length then { next with dropped := next.dropped + (value.length - amount), truncated := true }
  else next

def consumeLine (line : Bytes) (event : UsbLogEvent) (atLineStart : Bool) (c : UsbDiagnosticLogCollector) :
    UsbDiagnosticLogCollector × UsbLogEvent :=
  let (c, event) := if atLineStart && startsWithBytes line usbDiagnosticBegin then c.beginSection else (c, event)
  if !c.active then (c, event)
  else
    let next := c.store line
    let event := { event with chunks := event.chunks ++ [line] }
    if atLineStart && startsWithBytes line usbDiagnosticEnd then
      ({ next with complete := true, active := false }, { event with completed := true })
    else (next, event)

/-- What the loop of `append` has: the line that is begun, and whether it began as a line. -/
structure Scan where
  collector : UsbDiagnosticLogCollector
  event : UsbLogEvent := {}
  line : Bytes := []
  atLineStart : Bool

def Scan.byte (scan : Scan) (value : UInt8) : Scan :=
  if value ≠ lf then { scan with line := scan.line ++ [value] }
  else
    let (collector, event) := scan.collector.consumeLine (scan.line ++ [value]) scan.event scan.atLineStart
    { collector := collector, event := event, line := [], atLineStart := true }

/-- The bytes of a line that are kept back for what is to come. -/
def keep : Nat := 64

def append (input : Bytes) (c : UsbDiagnosticLogCollector) : UsbDiagnosticLogCollector × UsbLogEvent :=
  if input = [] then (c, {})
  else
    let combined := c.pending ++ input
    let scan : Scan := combined.foldl Scan.byte { collector := c, atLineStart := c.pendingAtLineStart }
    let c : UsbDiagnosticLogCollector := { scan.collector with pending := scan.line, pendingAtLineStart := scan.atLineStart }
    if c.pending.length > c.pendingLimit then
      let split := c.pending.length - keep
      let fragment := c.pending.take split
      let (next, event) := { c with pending := c.pending.drop split }.consumeLine fragment scan.event
        c.pendingAtLineStart
      ({ next with pendingAtLineStart := false }, event)
    else (c, scan.event)

def flush (c : UsbDiagnosticLogCollector) : UsbDiagnosticLogCollector × UsbLogEvent :=
  if c.pending ≠ [] then
    let (next, event) := { c with pending := [] }.consumeLine c.pending {} c.pendingAtLineStart
    ({ next with pendingAtLineStart := true }, event)
  else (c, {})

/-- A stream that comes in pieces, and then ends. -/
def collect (pieces : List Bytes) (c : UsbDiagnosticLogCollector) : UsbDiagnosticLogCollector :=
  (pieces.foldl (fun c piece => (c.append piece).1) c).flush.1

end UsbDiagnosticLogCollector

end Bmx.Remote
