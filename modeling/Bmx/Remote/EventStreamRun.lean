import Bmx.Remote.EventStream

/-!
# Runs of a device with event streams

In a run the menu changes, invalidations are made, clients open streams, the streams are read and
sent in pieces, connections break, and the device starts anew. What has been made, sent and received
is kept beside the router, which sees nothing of it.
-/

namespace Bmx.Remote

/-- A start of the device, with how many invalidations had been made before it. -/
structure Boot where
  number : Nat
  began : Nat
  deriving DecidableEq

structure Invalidation where
  revision : UInt32
  resources : UInt32
  deriving DecidableEq

/-- An event that was read from a stream, with how many invalidations had been made by then. -/
structure Emission where
  event : InvalidateEvent
  made : Nat
  deriving DecidableEq

/-- An event that a client got. -/
structure Receipt where
  boot : Boot
  emission : Emission
  deriving DecidableEq

/-- A stream with what became of it. `since` and `readAt` count the invalidations that had been made
when it was opened and when it was last read; `known` is what its client had got before. -/
structure EventConnection where
  client : Option Nat
  boot : Boot
  since : Nat
  resynchronized : Bool
  known : List Receipt
  emitted : List Emission
  readAt : Nat
  sent : Nat
  received : Nat
  deriving DecidableEq

structure EventDevice where
  menuChanges : UInt32
  router : EventRouter
  boot : Boot
  made : List Invalidation
  opened : Fin maximumEventStreams → Option EventConnection
  closed : List EventConnection
  receipts : Nat → List Receipt

/-- The bytes of some events. -/
def emissionBytes (emitted : List Emission) : Nat :=
  (emitted.map fun emission => emission.event.text.length).sum

/-- What may happen. A connection is named by its slot while it is open, and later by its place among
the closed ones. -/
inductive EventAction
  | commitMenu
  | pollMenu
  | invalidate (resources : UInt32)
  | request (client : Option Nat) (head : HttpRequestHead) (allocated : Bool)
  | read (slot : Fin maximumEventStreams)
  | write (slot : Fin maximumEventStreams) (count : Nat)
  | receive (slot : Fin maximumEventStreams)
  | receiveLate (index : Nat)
  | release (slot : Fin maximumEventStreams)
  | restart (menuChanges : UInt32)

namespace EventDevice

def start (menuChanges : UInt32) : EventDevice :=
  ⟨menuChanges, .start menuChanges, ⟨0, 0⟩, [], fun _ => none, [], fun _ => []⟩

def invalidate (resources : UInt32) (d : EventDevice) : EventDevice :=
  { d with
    router := d.router.invalidate resources
    made := if resources = 0 then d.made
      else d.made ++ [⟨nextRevision d.router.eventRevision, resources⟩] }

def pollMenu (d : EventDevice) : EventDevice :=
  { d with
    router := d.router.pollMenuInvalidation d.menuChanges
    made := if d.menuChanges = d.router.menuRevision then d.made
      else d.made ++ [⟨nextRevision d.router.eventRevision, invalidateMenu⟩] }

def setOpened (d : EventDevice) (slot : Fin maximumEventStreams) (connection : Option EventConnection) :
    EventDevice :=
  { d with opened := fun other => if other = slot then connection else d.opened other }

/-- A client names no event but one it got. -/
def honest (d : EventDevice) (client : Option Nat) (head : HttpRequestHead) : Bool :=
  match client, lastEventId head with
  | some client, some (some id) => (d.receipts client).any fun receipt => receipt.emission.event.id = id
  | _, _ => true

/-- A request for events. A refusal may come before or after the menu was polled. -/
def request (client : Option Nat) (head : HttpRequestHead) (allocated : Bool) (d : EventDevice) :
    Option EventDevice :=
  if d.honest client head = false then none
  else
    match routeEvents d.menuChanges head allocated d.router with
    | (.error _, router) =>
      if router.menuRevision = d.router.menuRevision then some { d with router := router }
      else some { d.pollMenu with router := router }
    | (.ok slot, router) =>
      let since := d.pollMenu.made.length
      some ({ d.pollMenu with router := router }.setOpened slot (some
        { client := client
          boot := d.boot
          since := since
          resynchronized := lastEventId head ≠ some (some router.eventRevision)
          known := client.elim [] d.receipts
          emitted := []
          readAt := since
          sent := 0
          received := 0 }))

/-- The writer of a response reads its stream when it has sent what it read before. An error closes
the connection. -/
def read (slot : Fin maximumEventStreams) (d : EventDevice) : Option EventDevice :=
  match d.opened slot with
  | none => none
  | some connection =>
    if connection.sent ≠ emissionBytes connection.emitted then none
    else
      let polled := d.pollMenu
      let count := polled.made.length
      match d.router.readStream d.menuChanges httpResponseStreamBufferBytes slot with
      | ((.data, _), router) =>
        let stream := (polled.router.activeEventStreams slot).getD {}
        some ({ polled with router := router }.setOpened slot (some
          { connection with emitted := connection.emitted ++ [Emission.mk stream.event count], readAt := count }))
      | ((.wouldBlock, _), router) =>
        some ({ polled with router := router }.setOpened slot (some
          { connection with readAt := count }))
      | (_, router) =>
        some ({ polled with
          router := router.eventStreamReleased slot
          closed := connection :: d.closed }.setOpened slot none)

def write (slot : Fin maximumEventStreams) (count : Nat) (d : EventDevice) : Option EventDevice :=
  match d.opened slot with
  | none => none
  | some connection =>
    if connection.sent + count > emissionBytes connection.emitted then none
    else some (d.setOpened slot (some { connection with sent := connection.sent + count }))

/-- The next event of a connection reaches its client, once all of it was sent. -/
def arrival (connection : EventConnection) : Option (Nat × Receipt) :=
  match connection.client, connection.emitted[connection.received]? with
  | some client, some emission =>
    if emissionBytes (connection.emitted.take (connection.received + 1)) ≤ connection.sent then
      some (client, ⟨connection.boot, emission⟩)
    else none
  | _, _ => none

def addReceipt (client : Nat) (receipt : Receipt) (d : EventDevice) : EventDevice :=
  { d with
    receipts := fun other =>
      if other = client then d.receipts other ++ [receipt] else d.receipts other }

def receive (slot : Fin maximumEventStreams) (d : EventDevice) : Option EventDevice :=
  match d.opened slot with
  | none => none
  | some connection =>
    (arrival connection).map fun (client, receipt) =>
      (d.addReceipt client receipt).setOpened slot
        (some { connection with received := connection.received + 1 })

def receiveLate (index : Nat) (d : EventDevice) : Option EventDevice :=
  match d.closed[index]? with
  | none => none
  | some connection =>
    (arrival connection).map fun (client, receipt) =>
      { d.addReceipt client receipt with
        closed := d.closed.set index { connection with received := connection.received + 1 } }

def release (slot : Fin maximumEventStreams) (d : EventDevice) : Option EventDevice :=
  match d.opened slot with
  | none => none
  | some connection =>
    some ({ d with
      router := d.router.eventStreamReleased slot
      closed := connection :: d.closed }.setOpened slot none)

/-- All streams break when the device starts anew. -/
def restart (menuChanges : UInt32) (d : EventDevice) : EventDevice :=
  { d with
    menuChanges := menuChanges
    router := .start menuChanges
    boot := ⟨d.boot.number + 1, d.made.length⟩
    opened := fun _ => none
    closed := (List.finRange maximumEventStreams).filterMap d.opened ++ d.closed }

def step (action : EventAction) (d : EventDevice) : Option EventDevice :=
  match action with
  | .commitMenu => some { d with menuChanges := d.menuChanges + 1 }
  | .pollMenu => some d.pollMenu
  | .invalidate resources => some (d.invalidate resources)
  | .request client head allocated => d.request client head allocated
  | .read slot => d.read slot
  | .write slot count => d.write slot count
  | .receive slot => d.receive slot
  | .receiveLate index => d.receiveLate index
  | .release slot => d.release slot
  | .restart menuChanges => some (d.restart menuChanges)

/-- A run, step after step. -/
def run (actions : List EventAction) (d : EventDevice) : Option EventDevice :=
  actions.foldlM (fun d action => d.step action) d

end EventDevice

end Bmx.Remote
