import Mathlib.Data.List.FinRange
import Bmx.Remote.HttpConnection

/-!
# The server and its slots

`HttpServer` accepts transports into its slots and polls them. A handler that a poll calls may call
`PollResponsesCooperatively` before it returns: which calls it makes is one more question to the
surroundings, asked before the handler answers.
-/

namespace Bmx.Remote

open Interaction

inductive HttpAcceptStatus
  | accepted | wouldBlock | error

inductive HttpServerPollStatus
  | ok | listenerError | invalidConfiguration

abbrev Slot := Fin httpMaximumConnections

/-- What the server calls. `nested` asks for the times at which a handler calls back, and `enter` and
`leave` mark the beginning and the end of the poll of a connection. -/
inductive ServerOp
  | accept
  | release (transport : TransportId)
  | close (transport : TransportId)
  | http (slot : Slot) (op : HttpOp)
  | nested (slot : Slot) (op : HttpOp)
  | enter (slot : Slot)
  | leave (slot : Slot)

@[reducible] def ServerOp.Answer : ServerOp → Type
  | .accept => HttpAcceptStatus × Option TransportId
  | .http _ op => op.Answer
  | .nested _ _ => List Nat
  | .release _ | .close _ | .enter _ | .leave _ => Unit

@[reducible] def serverSignature : Signature := ⟨ServerOp, ServerOp.Answer⟩

/-- The router, the sinks, the streams and the completion hooks are handlers; a transport is not. -/
def HttpOp.isHandler : HttpOp → Bool
  | .transportRead _ _ | .transportWrite _ _ | .transportClose _ => false
  | _ => true

structure HttpServer where
  listener : Bool
  config : HttpServerConfig
  valid : Bool
  polling : Slot → Bool := fun _ => false
  connections : Slot → HttpConnection := fun _ => {}

namespace HttpServer

abbrev ServerMethod := Method serverSignature HttpServer

def ask (op : ServerOp) : ServerMethod op.Answer := Method.call (S := serverSignature) op

/-- The constructor, given whether there are a listener and a router. -/
def init (listener router : Bool) (config : HttpServerConfig) : HttpServer where
  listener := listener
  config := config
  valid := listener ∧ router ∧ config.valid

def setConnection (server : HttpServer) (slot : Slot) (c : HttpConnection) : HttpServer :=
  { server with connections := Function.update server.connections slot c }

def setPolling (server : HttpServer) (slot : Slot) (polling : Bool) : HttpServer :=
  { server with polling := Function.update server.polling slot polling }

/-- The slots that are in use, in order. -/
def slots (server : HttpServer) : List Slot :=
  (List.finRange httpMaximumConnections).filter (·.val < server.config.maximumConnections)

def activeConnections (server : HttpServer) : Nat :=
  server.slots.countP fun slot => (server.connections slot).active

def callBack (nested : Nat → ServerMethod Unit) : List Nat → ServerMethod Unit
  | [] => pure ()
  | nowMs :: rest => do
    nested nowMs
    callBack nested rest

/-- A method of the connection in a slot. Whatever it calls finds the connection in its slot. -/
def hosted {α : Type} (nested : Nat → ServerMethod Unit) (slot : Slot) :
    Program (httpSignature.shared HttpConnection) (α × HttpConnection) → ServerMethod α
  | .done (value, c) => do
    modify fun server => server.setConnection slot c
    return value
  | .call (op, c) next => do
    modify fun server => server.setConnection slot c
    if op.isHandler then
      let times ← ask (.nested slot op)
      callBack nested times
    let answer ← ask (.http slot op)
    let server ← get
    hosted nested slot (next (answer, server.connections slot))

/-- The poll of the connection in a slot, with whether it made progress. -/
def pollSlot (nested : Nat → ServerMethod Unit) (nowMs : Nat) (slot : Slot) : ServerMethod Bool := do
  modify fun server => server.setPolling slot true
  ask (.enter slot)
  let server ← get
  let progress ← hosted nested slot ((HttpConnection.poll nowMs).run (server.connections slot))
  ask (.leave slot)
  modify fun server => server.setPolling slot false
  return progress

def releaseSlot (slot : Slot) : ServerMethod Unit := do
  let server ← get
  let (transport, c) := (server.connections slot).takeFinishedTransport
  set (server.setConnection slot c)
  match transport with
  | some transport => ask (.release transport)
  | none => pure ()

def releaseSlots : List Slot → ServerMethod Unit
  | [] => pure ()
  | slot :: rest => do
    releaseSlot slot
    releaseSlots rest

def releaseFinished : ServerMethod Unit := do
  let server ← get
  if server.listener then releaseSlots server.slots else pure ()

/-- The loop of `PollResponsesCooperatively`. -/
def pollResponses (nested : Nat → ServerMethod Unit) (nowMs : Nat) : List Slot → ServerMethod Unit
  | [] => pure ()
  | slot :: rest => do
    let server ← get
    if ¬ server.polling slot ∧ (server.connections slot).writingResponse then
      let _ ← pollSlot nested nowMs slot
      pollResponses nested nowMs rest
    else pollResponses nested nowMs rest

/-- `PollResponsesCooperatively`, with calls nested up to some depth. Every level holds a slot of its
own. -/
def pollResponsesCooperatively : Nat → Nat → ServerMethod Unit
  | 0, _ => pure ()
  | depth + 1, nowMs => do
    let server ← get
    if server.valid then
      pollResponses (pollResponsesCooperatively depth) nowMs server.slots
      releaseFinished
    else pure ()

def install (transport : TransportId) (nowMs : Nat) (server : HttpServer) : List Slot → Bool × HttpServer
  | [] => (false, server)
  | slot :: rest =>
    if (server.connections slot).active then install transport nowMs server rest
    else
      match (server.connections slot).begin (some transport) server.config nowMs with
      | (true, c) => (true, server.setConnection slot c)
      | (false, c) => install transport nowMs (server.setConnection slot c) rest

/-- The accept of a poll: an error, or whether there was progress. -/
def pollAccept (nowMs : Nat) : ServerMethod (Option Bool) := do
  let server ← get
  if server.activeConnections < server.config.maximumConnections then
    match ← ask .accept with
    | (.error, _) => return none
    | (.accepted, none) => return none
    | (.accepted, some transport) =>
      let server ← get
      let (installed, server) := install transport nowMs server server.slots
      set server
      if installed then return some true
      else
        ask (.close transport)
        ask (.release transport)
        return none
    | (.wouldBlock, some _) => return none
    | (.wouldBlock, none) => return some false
  else return some false

/-- The loop of `Poll`, with whether there was progress. -/
def pollConnections (nested : Nat → ServerMethod Unit) (nowMs : Nat) : List Slot → ServerMethod Bool
  | [] => return false
  | slot :: rest => do
    let server ← get
    if (server.connections slot).active ∧ ¬ server.polling slot then
      let progress ← pollSlot nested nowMs slot
      let others ← pollConnections nested nowMs rest
      return progress || others
    else pollConnections nested nowMs rest

/-- `Poll`, with whether there was progress. -/
def poll (depth : Nat) (nowMs : Nat) : ServerMethod (HttpServerPollStatus × Bool) := do
  let server ← get
  if server.valid then
    releaseFinished
    match ← pollAccept nowMs with
    | none => return (.listenerError, false)
    | some accepted =>
      let server ← get
      let progress ← pollConnections (pollResponsesCooperatively depth) nowMs server.slots
      releaseFinished
      return (.ok, accepted || progress)
  else return (.invalidConfiguration, false)

def stopSlots (nested : Nat → ServerMethod Unit) : List Slot → ServerMethod Unit
  | [] => pure ()
  | slot :: rest => do
    let server ← get
    hosted nested slot (HttpConnection.stop.run (server.connections slot))
    stopSlots nested rest

def stop (depth : Nat) : ServerMethod Unit := do
  let server ← get
  if server.listener then
    stopSlots (pollResponsesCooperatively depth) server.slots
    releaseFinished
  else pure ()

end HttpServer

end Bmx.Remote
