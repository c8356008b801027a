import Bmx.Base.Bytes

/-!
# The command mailbox

One slot between the network task and the safe point of the emulator. It holds a plain command or a
control request, which is posted, taken, completed and polled, and which its poster may cancel at any
time. Every member function holds the lock from its first to its last access, so an interleaving of
the two sides is a sequence of calls.
-/

namespace Bmx.Remote

inductive RemoteCommand
  | none | systemReboot
  deriving DecidableEq

inductive BmxApiOperation
  | none | state | menu | listControls | listActions | describeControl | setControl | invokeAction
  | input | textInput | screenshot | audio | audioWav | storage | files | media | developerMemoryRead
  deriving DecidableEq

inductive ControlPollStatus
  | pending | complete | missing
  deriving DecidableEq

def bmxApiMaximumTextBytes : Nat := 16 * 1024

/-- A request, by what its text points to. `fields` stands for the members the mailbox only copies. -/
structure BmxApiRequest (Text Fields : Type) where
  operation : BmxApiOperation
  text : Text
  textSize : Nat
  fields : Fields

/-- A request as it is posted, with the buffer of the caller its text points to. -/
abbrev PostedRequest (Fields : Type) := BmxApiRequest (Option Bytes) Fields

/-- What the text of a request points to that the mailbox keeps. -/
inductive TextPointer
  | null
  | caller (buffer : Bytes)
  | controlText

abbrev KeptRequest (Fields : Type) := BmxApiRequest TextPointer Fields

inductive ControlState
  | empty | posted | running | abandoned | complete
  deriving DecidableEq

/-- The members. Of `control_text_` only the bytes before the terminator the mailbox wrote are kept;
`none` is the value-initialised request or response. -/
structure CommandMailbox (Fields Response : Type) where
  command : RemoteCommand
  controlState : ControlState
  nextControlToken : UInt32
  controlToken : UInt32
  controlRequest : Option (KeptRequest Fields)
  controlResponse : Option Response
  controlText : Bytes

namespace CommandMailbox

variable {Fields Response : Type}

def init : CommandMailbox Fields Response := ⟨.none, .empty, 0, 0, none, none, []⟩

def resetControlLocked (m : CommandMailbox Fields Response) : CommandMailbox Fields Response :=
  { m with
    controlRequest := none, controlResponse := none, controlText := [], controlToken := 0,
    controlState := .empty }

def post (m : CommandMailbox Fields Response) (command : RemoteCommand) :
    Bool × CommandMailbox Fields Response :=
  if command = .none then (false, m)
  else if m.command = .none ∧ m.controlState = .empty then (true, { m with command := command })
  else (false, m)

/-- `none` is a call that found no command. -/
def take (m : CommandMailbox Fields Response) :
    Option RemoteCommand × CommandMailbox Fields Response :=
  (if m.command = .none then none else some m.command, { m with command := .none })

/-- `++next_control_token_`, which skips zero when it wraps. -/
def nextToken (token : UInt32) : UInt32 := if token + 1 = 0 then 1 else token + 1

/-- The bytes `memcpy` copies into the mailbox. -/
def textOf (request : PostedRequest Fields) : Bytes := (request.text.getD []).take request.textSize

/-- The requests `PostControl` looks at: those that are one, with a text where they need it. -/
def Postable (request : PostedRequest Fields) : Prop :=
  request.operation ≠ .none ∧ (request.operation = .textInput →
    request.text ≠ none ∧ request.textSize ≠ 0 ∧ request.textSize ≤ bmxApiMaximumTextBytes)

instance (request : PostedRequest Fields) : Decidable (Postable request) := by
  unfold Postable
  infer_instance

/-- The request as it is kept: a text to be typed is read from the mailbox. -/
def stored (request : PostedRequest Fields) : KeptRequest Fields where
  operation := request.operation
  text :=
    if request.operation = .textInput then .controlText
    else
      match request.text with
      | none => .null
      | some buffer => .caller buffer
  textSize := request.textSize
  fields := request.fields

/-- `none` is a request that is not accepted. -/
def postControl (m : CommandMailbox Fields Response) (request : PostedRequest Fields) :
    Option UInt32 × CommandMailbox Fields Response :=
  if ¬ Postable request then (none, m)
  else if m.command = .none ∧ m.controlState = .empty then
    let token := nextToken m.nextControlToken
    (some token,
      { m with
        nextControlToken := token, controlToken := token, controlRequest := some (stored request),
        controlText := if request.operation = .textInput then textOf request else m.controlText,
        controlResponse := none, controlState := .posted })
  else (none, m)

def takeControl (m : CommandMailbox Fields Response) :
    Option (Option (KeptRequest Fields) × UInt32) × CommandMailbox Fields Response :=
  if m.controlState = .posted then
    (some (m.controlRequest, m.controlToken), { m with controlState := .running })
  else (none, m)

def completeControl (m : CommandMailbox Fields Response) (token : UInt32) (response : Response) :
    Bool × CommandMailbox Fields Response :=
  if m.controlState = .running ∧ m.controlToken = token then
    (true, { m with controlResponse := some response, controlState := .complete })
  else if m.controlState = .abandoned ∧ m.controlToken = token then (false, m.resetControlLocked)
  else (false, m)

/-- The status and, where it is `Complete`, the response. -/
def pollControl (m : CommandMailbox Fields Response) (token : UInt32) :
    (ControlPollStatus × Option Response) × CommandMailbox Fields Response :=
  if m.controlState ≠ .empty ∧ m.controlToken = token then
    if m.controlState = .complete then ((.complete, m.controlResponse), m.resetControlLocked)
    else ((.pending, none), m)
  else ((.missing, none), m)

/-- Whether the request was cancelled and the response a caller that wants it gets. -/
def cancelControl (m : CommandMailbox Fields Response) (token : UInt32) (wanted : Bool) :
    (Bool × Option Response) × CommandMailbox Fields Response :=
  if m.controlState ≠ .empty ∧ m.controlState ≠ .abandoned ∧ m.controlToken = token then
    let abandoned :=
      if wanted = true ∧ m.controlState = .complete then m.controlResponse else none
    if m.controlState = .running then ((true, abandoned), { m with controlState := .abandoned })
    else ((true, abandoned), m.resetControlLocked)
  else ((false, none), m)

end CommandMailbox

end Bmx.Remote
