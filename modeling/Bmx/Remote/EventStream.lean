import Bmx.Remote.BmxApiRouter
import Bmx.Remote.CommandMailbox

/-!
# The event streams of the BMX API

The router numbers every invalidation of resources and queues it for each stream that is open. A
stream that is read sends what is queued as one event, under the number of the last invalidation. A
client that comes back names the last event it got, and is told of nothing where that is the number
the router has reached.
-/

namespace Bmx.Remote

def invalidateMenu : UInt32 := 1
def invalidateMediaFiles : UInt32 := 2
def invalidateAll : UInt32 := invalidateMenu ||| invalidateMediaFiles

def menuResources : List Bytes := [ascii "state", ascii "controls", ascii "actions", ascii "media"]
def mediaFileResources : List Bytes := [ascii "storage", ascii "files"]
def allResources : List Bytes :=
  [ascii "state", ascii "controls", ascii "actions", ascii "storage", ascii "files", ascii "media"]

def resourceNames (resources : UInt32) : List Bytes :=
  if resources = invalidateMenu then menuResources
  else if resources = invalidateMediaFiles then mediaFileResources
  else allResources

def quote : UInt8 := 34

def resourceList (names : List Bytes) : Bytes :=
  ascii "[" ++ [44].intercalate (names.map fun name => quote :: (name ++ [quote])) ++ ascii "]"

example : resourceList mediaFileResources = ascii "[\"storage\",\"files\"]" := by decide

structure InvalidateEvent where
  id : UInt32
  resources : List Bytes
  deriving DecidableEq

def InvalidateEvent.text (event : InvalidateEvent) : Bytes :=
  ascii "id: " ++ decimal event.id.toNat ++ ascii "\nevent: invalidate\ndata: \x7b\"resources\":" ++
    resourceList event.resources ++ ascii "\x7d\n\n"

/-! ### Streams -/

/-- An `EventStream` that has not been released. -/
structure EventStream where
  queuedRevision : UInt32 := 0
  queuedResources : UInt32 := 0

namespace EventStream

def queue (revision resources : UInt32) (stream : EventStream) : EventStream :=
  if resources = 0 then stream else ⟨revision, stream.queuedResources ||| resources⟩

def event (stream : EventStream) : InvalidateEvent :=
  ⟨stream.queuedRevision, resourceNames stream.queuedResources⟩

/-- `Read`, after the menu was polled. -/
def read (capacity : Nat) (stream : EventStream) : (HttpStreamReadResult × Bytes) × EventStream :=
  if stream.queuedResources = 0 then ((.wouldBlock, []), stream)
  else if stream.event.text.length ≥ capacity then ((.error, []), stream)
  else ((.data, stream.event.text), { stream with queuedResources := 0 })

end EventStream

/-! ### The router -/

abbrev maximumEventStreams : Nat := 2

/-- The members of the router that the event streams are about. -/
structure EventRouter where
  eventRevision : UInt32
  menuRevision : UInt32
  activeEventStreams : Fin maximumEventStreams → Option EventStream

/-- `++event_revision_`, which leaves out 0. -/
def nextRevision (revision : UInt32) : UInt32 := if revision + 1 = 0 then 1 else revision + 1

namespace EventRouter

/-- The constructor, given `ui_menu_change_revision()`. -/
def start (menuChanges : UInt32) : EventRouter := ⟨1, menuChanges, fun _ => none⟩

def setStream (router : EventRouter) (slot : Fin maximumEventStreams) (stream : Option EventStream) :
    EventRouter :=
  { router with
    activeEventStreams := fun other => if other = slot then stream else router.activeEventStreams other }

def invalidate (resources : UInt32) (router : EventRouter) : EventRouter :=
  if resources = 0 then router
  else
    let revision := nextRevision router.eventRevision
    { router with
      eventRevision := revision
      activeEventStreams := fun slot =>
        (router.activeEventStreams slot).map (EventStream.queue revision resources) }

def pollMenuInvalidation (menuChanges : UInt32) (router : EventRouter) : EventRouter :=
  if menuChanges = router.menuRevision then router
  else invalidate invalidateMenu { router with menuRevision := menuChanges }

/-- `EventStreamReleased`, for the stream in a slot. -/
def eventStreamReleased (slot : Fin maximumEventStreams) (router : EventRouter) : EventRouter :=
  router.setStream slot none

/-- `Read` of the stream in a slot. A released stream has no owner to ask. -/
def readStream (menuChanges : UInt32) (capacity : Nat) (slot : Fin maximumEventStreams)
    (router : EventRouter) : (HttpStreamReadResult × Bytes) × EventRouter :=
  let polled := router.pollMenuInvalidation menuChanges
  match polled.activeEventStreams slot with
  | none => ((.error, []), router)
  | some stream =>
    let (answer, stream) := stream.read capacity
    (answer, polled.setStream slot (some stream))

def freeSlot (router : EventRouter) : Option (Fin maximumEventStreams) :=
  (List.finRange maximumEventStreams).find? fun slot => (router.activeEventStreams slot).isNone

end EventRouter

/-- The `Last-Event-ID` of a request, where it has one; `none` where it cannot be used. -/
def lastEventId (request : HttpRequestHead) : Option (Option UInt32) :=
  match request.headers.filter fun header =>
      httpStringEqualsInsensitive header.name (ascii "Last-Event-ID") with
  | [] => some none
  | [header] => (BmxApiRouter.parseUnsignedDecimal header.value 0 (2 ^ 32 - 1)).map fun id => some (UInt32.ofNat id)
  | _ => none

/-- `RouteEvents`: the slot of a new stream, or a refusal. `allocated` is whether there was memory for
the stream. -/
def routeEvents (menuChanges : UInt32) (request : HttpRequestHead) (allocated : Bool)
    (router : EventRouter) : Except ApiReply (Fin maximumEventStreams) × EventRouter :=
  if request.method ≠ .get ∨ request.hasQuery ∨ BmxApiRouter.hasBody request then
    (.error (respondJsonError 400 "invalid_request"), router)
  else
    match router.freeSlot with
    | none => (.error (respondJsonError 409 "busy"), router)
    | some slot =>
      match lastEventId request with
      | none => (.error (respondJsonError 400 "invalid_request"), router)
      | some lastId =>
        let router := router.pollMenuInvalidation menuChanges
        if ¬ allocated then (.error (respondJsonError 500 "out_of_memory"), router)
        else if lastId ≠ some router.eventRevision then
          (.ok slot, router.setStream slot
            (some (EventStream.queue router.eventRevision invalidateAll {})))
        else (.ok slot, router.setStream slot (some {}))

end Bmx.Remote
