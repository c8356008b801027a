import Bmx.Remote.CommandMailbox

/-!
# The lives of requests

What the mailbox holds is nothing, a command, or a control request on its way, and every call does to
it what a slot of that kind has to do. What the calls have done, in order, is then a sequence of
complete lives of single requests followed by the beginning of one more. A life is that of a plain
command, which is posted and taken, or that of a control request, which is answered, withdrawn,
dropped or discarded under the token it was posted with.
-/

namespace Bmx.Remote

open List

variable {Fields Response : Type}

inductive MailboxCall (Fields Response : Type)
  | post (command : RemoteCommand)
  | take
  | postControl (request : PostedRequest Fields)
  | takeControl
  | completeControl (token : UInt32) (response : Response)
  | pollControl (token : UInt32)
  | cancelControl (token : UInt32) (wanted : Bool)

/-- What a call has done. A call that was refused, or that only looked, has done nothing. -/
inductive MailboxEvent (Fields Response : Type)
  | commandPosted (command : RemoteCommand)
  | commandTaken (command : RemoteCommand)
  | posted (token : UInt32) (request : PostedRequest Fields)
  | taken (token : UInt32) (request : Option (KeptRequest Fields))
  | completed (token : UInt32) (response : Response)
  | delivered (token : UInt32) (response : Option Response)
  | cancelled (token : UInt32) (abandoned : Option Response)
  | released (token : UInt32)

open MailboxEvent
open CommandMailbox (stored Postable textOf nextToken)

namespace CommandMailbox

@[simp] def call (m : CommandMailbox Fields Response) :
    MailboxCall Fields Response →
      List (MailboxEvent Fields Response) × CommandMailbox Fields Response
  | .post command =>
    let (accepted, m') := m.post command
    (if accepted then [commandPosted command] else [], m')
  | .take =>
    let (command, m') := m.take
    (command.toList.map commandTaken, m')
  | .postControl request =>
    let (token, m') := m.postControl request
    (token.toList.map (posted · request), m')
  | .takeControl =>
    let (taking, m') := m.takeControl
    (taking.toList.map fun t => taken t.2 t.1, m')
  | .completeControl token response =>
    let (accepted, m') := m.completeControl token response
    (if accepted then [completed token response]
      else if m.controlState = .abandoned ∧ m.controlToken = token then [released token] else [], m')
  | .pollControl token =>
    let ((status, response), m') := m.pollControl token
    (if status = .complete then [delivered token response] else [], m')
  | .cancelControl token wanted =>
    let ((accepted, abandoned), m') := m.cancelControl token wanted
    (if accepted then [cancelled token abandoned] else [], m')

/-- The calls of both sides in the order in which they got the lock. -/
def calls (m : CommandMailbox Fields Response) :
    List (MailboxCall Fields Response) →
      List (MailboxEvent Fields Response) × CommandMailbox Fields Response
  | [] => ([], m)
  | next :: rest =>
    let (events, m') := m.call next
    let (later, m'') := m'.calls rest
    (events ++ later, m'')

/-- The slot takes the next command or request. -/
def Free (m : CommandMailbox Fields Response) : Prop :=
  m.command = .none ∧ m.controlState = .empty

end CommandMailbox

/-- Everything that ever happens to one command or request. -/
inductive Life : List (MailboxEvent Fields Response) → Prop
  | command (command : RemoteCommand) : Life [commandPosted command, commandTaken command]
  | answered (token : UInt32) (request : PostedRequest Fields) (response : Response) :
      Life [posted token request, taken token (some (stored request)),
        completed token response, delivered token (some response)]
  | withdrawn (token : UInt32) (request : PostedRequest Fields) :
      Life [posted token request, cancelled token none]
  | dropped (token : UInt32) (request : PostedRequest Fields) :
      Life [posted token request, taken token (some (stored request)),
        cancelled token none, released token]
  | discarded (token : UInt32) (request : PostedRequest Fields) (response : Response) (wanted : Bool) :
      Life [posted token request, taken token (some (stored request)),
        completed token response, cancelled token (if wanted then some response else none)]

structure Keeps (m : CommandMailbox Fields Response) (token : UInt32)
    (request : PostedRequest Fields) : Prop where
  idle : m.command = .none
  same : m.controlToken = token
  kept : m.controlRequest = some (stored request)
  text : request.operation = .textInput → m.controlText = textOf request

/-- What the mailbox holds. -/
inductive RequestSlot (Fields Response : Type)
  | free
  | command (command : RemoteCommand)
  | posted (token : UInt32) (request : PostedRequest Fields)
  | running (token : UInt32) (request : PostedRequest Fields)
  | abandoned (token : UInt32) (request : PostedRequest Fields)
  | complete (token : UInt32) (request : PostedRequest Fields) (response : Response)

namespace RequestSlot

/-- The unfinished life of what it holds. -/
def begun : RequestSlot Fields Response → List (MailboxEvent Fields Response)
  | free => []
  | command own => [commandPosted own]
  | posted token request => [.posted token request]
  | running token request => [.posted token request, taken token (some (stored request))]
  | abandoned token request =>
    [.posted token request, taken token (some (stored request)), cancelled token none]
  | complete token request response =>
    [.posted token request, taken token (some (stored request)), completed token response]

/-- What a call has to do to it. `fresh` is the token of the next request. -/
@[simp] def call (fresh : UInt32) (slot : RequestSlot Fields Response) (next : MailboxCall Fields Response) :
    List (MailboxEvent Fields Response) × RequestSlot Fields Response :=
  match slot, next with
  | free, .post other => if other = .none then ([], slot) else ([commandPosted other], command other)
  | free, .postControl request =>
    if Postable request then ([.posted fresh request], posted fresh request) else ([], slot)
  | command own, .take => ([commandTaken own], free)
  | posted token request, .takeControl => ([taken token (some (stored request))], running token request)
  | posted token _, .cancelControl asked _ => if asked = token then ([cancelled token none], free) else ([], slot)
  | running token request, .completeControl asked response =>
    if asked = token then ([completed token response], complete token request response) else ([], slot)
  | running token request, .cancelControl asked _ =>
    if asked = token then ([cancelled token none], abandoned token request) else ([], slot)
  | abandoned token _, .completeControl asked _ => if asked = token then ([released token], free) else ([], slot)
  | complete token _ response, .pollControl asked =>
    if asked = token then ([delivered token (some response)], free) else ([], slot)
  | complete token _ response, .cancelControl asked wanted =>
    if asked = token then ([cancelled token (if wanted then some response else none)], free) else ([], slot)
  | _, _ => ([], slot)

/-- A call prolongs the unfinished life, or it ends it and frees the slot. -/
theorem begun_call (fresh : UInt32) (slot : RequestSlot Fields Response) (next : MailboxCall Fields Response) :
    (slot.call fresh next).2.begun = slot.begun ++ (slot.call fresh next).1 ∨
      Life (slot.begun ++ (slot.call fresh next).1) ∧ (slot.call fresh next).2 = free := by
  unfold call
  split
  · split
    · exact .inl rfl
    · exact .inl rfl
  · split
    · exact .inl rfl
    · exact .inl rfl
  · exact .inr ⟨.command _, rfl⟩
  · exact .inl rfl
  · split
    · exact .inr ⟨.withdrawn _ _, rfl⟩
    · exact .inl rfl
  · split
    · exact .inl rfl
    · exact .inl rfl
  · split
    · exact .inl rfl
    · exact .inl rfl
  · split
    · exact .inr ⟨.dropped _ _, rfl⟩
    · exact .inl rfl
  · split
    · exact .inr ⟨.answered _ _ _, rfl⟩
    · exact .inl rfl
  · split
    · exact .inr ⟨.discarded _ _ _ _, rfl⟩
    · exact .inl rfl
  · exact .inl (append_nil _).symm

end RequestSlot

open CommandMailbox (call cancelControl completeControl pollControl post postControl takeControl)

/-- The members of the mailbox, by what it holds. -/
inductive Current (m : CommandMailbox Fields Response) : RequestSlot Fields Response → Prop
  | free (hfree : m.Free) : Current m .free
  | command {command : RemoteCommand} (hcommand : m.command = command) (hsome : command ≠ .none)
      (hstate : m.controlState = .empty) : Current m (.command command)
  | posted {token : UInt32} {request : PostedRequest Fields} (hstate : m.controlState = .posted)
      (hkeeps : Keeps m token request) : Current m (.posted token request)
  | running {token : UInt32} {request : PostedRequest Fields} (hstate : m.controlState = .running)
      (hkeeps : Keeps m token request) : Current m (.running token request)
  | abandoned {token : UInt32} {request : PostedRequest Fields} (hstate : m.controlState = .abandoned)
      (hkeeps : Keeps m token request) : Current m (.abandoned token request)
  | complete {token : UInt32} {request : PostedRequest Fields} {response : Response}
      (hstate : m.controlState = .complete) (hkeeps : Keeps m token request)
      (hresponse : m.controlResponse = some response) : Current m (.complete token request response)

def Does (m : CommandMailbox Fields Response) (slot : RequestSlot Fields Response) (next : MailboxCall Fields Response) :
    Prop :=
  (m.call next).1 = (slot.call (nextToken m.nextControlToken) next).1 ∧
    Current (m.call next).2 (slot.call (nextToken m.nextControlToken) next).2

namespace Current

variable {m : CommandMailbox Fields Response} {slot : RequestSlot Fields Response}

theorem idle (h : Current m slot) {next : MailboxCall Fields Response} (hcode : m.call next = ([], m))
    (hslot : slot.call (nextToken m.nextControlToken) next = ([], slot)) : Does m slot next := by
  unfold Does
  rw [hcode, hslot]
  exact ⟨rfl, h⟩

theorem post (h : Current m slot) (command : RemoteCommand) : Does m slot (.post command) := by
  have hsame := h
  cases h with
  | free hfree =>
    by_cases hnone : command = .none
    · simpa [Does, post, hnone] using hsame
    · have hposted : Current { m with command := command } (.command command) := .command rfl hnone hfree.2
      simpa [Does, post, hnone, hfree.1, hfree.2] using hposted
  | command hcommand hsome =>
    refine hsame.idle ?_ rfl
    simp [post, hcommand, hsome]
  | posted hstate | running hstate | abandoned hstate | complete hstate =>
    refine hsame.idle ?_ rfl
    simp [post, hstate]

theorem take (h : Current m slot) : Does m slot .take := by
  have hsame := h
  have hidle : m.command = .none → m.call .take = ([], m) := by
    intro hnone
    simp [CommandMailbox.take, ← hnone]
  cases h with
  | free hfree => exact hsame.idle (hidle hfree.1) rfl
  | command hcommand hsome hstate =>
    subst hcommand
    refine ⟨?_, .free ⟨rfl, hstate⟩⟩
    simp [CommandMailbox.take, hsome]
  | posted _ hkeeps | running _ hkeeps | abandoned _ hkeeps
  | complete _ hkeeps => exact hsame.idle (hidle hkeeps.idle) rfl

theorem postControl (h : Current m slot) (request : PostedRequest Fields) : Does m slot (.postControl request) := by
  have hsame := h
  cases h with
  | free hfree =>
    unfold Does
    simp only [call, postControl, RequestSlot.call]
    by_cases hpostable : Postable request
    · simp only [hpostable, hfree.1, hfree.2, not_true, and_self, if_false, if_true]
      exact ⟨rfl, .posted rfl ⟨rfl, rfl, rfl, fun htext => if_pos htext⟩⟩
    · simpa [hpostable] using hsame
  | command hcommand hsome =>
    refine hsame.idle ?_ rfl
    simp [postControl, hcommand, hsome]
  | posted hstate | running hstate | abandoned hstate | complete hstate =>
    refine hsame.idle ?_ rfl
    simp [postControl, hstate]

theorem takeControl (h : Current m slot) : Does m slot .takeControl := by
  have hsame := h
  cases h with
  | posted hstate hkeeps =>
    obtain rfl := hkeeps.same
    refine ⟨?_, ?_⟩
    · simp [takeControl, hstate, hkeeps.kept]
    · simp only [call, takeControl, if_pos hstate]
      exact .running rfl ⟨hkeeps.idle, rfl, hkeeps.kept, hkeeps.text⟩
  | free hfree =>
    refine hsame.idle ?_ rfl
    simp [takeControl, hfree.2]
  | command _ _ hstate | running hstate | abandoned hstate | complete hstate =>
    refine hsame.idle ?_ rfl
    simp [takeControl, hstate]

theorem free_reset (hcommand : m.command = .none) : m.resetControlLocked.Free := ⟨hcommand, rfl⟩

theorem completeControl (h : Current m slot) (token : UInt32) (response : Response) :
    Does m slot (.completeControl token response) := by
  have hsame := h
  cases h with
  | running hstate hkeeps =>
    obtain rfl := hkeeps.same
    unfold Does
    simp only [call, completeControl, RequestSlot.call]
    by_cases hmine : token = m.controlToken
    · subst hmine
      simp only [hstate, and_self, if_true, true_and]
      exact .complete rfl ⟨hkeeps.idle, rfl, hkeeps.kept, hkeeps.text⟩ rfl
    · simpa [hstate, hmine, Ne.symm hmine] using hsame
  | abandoned hstate hkeeps =>
    obtain rfl := hkeeps.same
    unfold Does
    simp only [call, completeControl, RequestSlot.call]
    by_cases hmine : token = m.controlToken
    · subst hmine
      simpa [hstate] using Current.free (free_reset hkeeps.idle)
    · simpa [hstate, hmine, Ne.symm hmine] using hsame
  | free hfree =>
    refine hsame.idle ?_ rfl
    simp [completeControl, hfree.2]
  | command _ _ hstate | posted hstate | complete hstate =>
    refine hsame.idle ?_ rfl
    simp [completeControl, hstate]

theorem pollControl (h : Current m slot) (token : UInt32) : Does m slot (.pollControl token) := by
  have hsame := h
  cases h with
  | complete hstate hkeeps hresponse =>
    obtain rfl := hkeeps.same
    unfold Does
    simp only [call, pollControl, RequestSlot.call]
    by_cases hmine : token = m.controlToken
    · subst hmine
      simpa [hstate, hresponse] using Current.free (free_reset hkeeps.idle)
    · simpa [hstate, hmine, Ne.symm hmine] using hsame
  | free hfree =>
    refine hsame.idle ?_ rfl
    simp [pollControl, hfree.2]
  | command _ _ hstate | posted hstate | running hstate | abandoned hstate =>
    refine hsame.idle ?_ rfl
    simp only [call, pollControl, hstate]
    split <;> rfl

theorem cancelControl (h : Current m slot) (token : UInt32) (wanted : Bool) :
    Does m slot (.cancelControl token wanted) := by
  have hsame := h
  cases h with
  | posted hstate hkeeps =>
    obtain rfl := hkeeps.same
    unfold Does
    simp only [call, cancelControl, RequestSlot.call]
    by_cases hmine : token = m.controlToken
    · subst hmine
      simpa [hstate] using Current.free (free_reset hkeeps.idle)
    · simpa [hmine, Ne.symm hmine] using hsame
  | running hstate hkeeps =>
    obtain rfl := hkeeps.same
    unfold Does
    simp only [call, cancelControl, RequestSlot.call]
    by_cases hmine : token = m.controlToken
    · subst hmine
      have habandoned : Current { m with controlState := .abandoned } (.abandoned m.controlToken _) :=
        .abandoned rfl ⟨hkeeps.idle, rfl, hkeeps.kept, hkeeps.text⟩
      simpa [hstate] using habandoned
    · simpa [hmine, Ne.symm hmine] using hsame
  | complete hstate hkeeps hresponse =>
    obtain rfl := hkeeps.same
    unfold Does
    simp only [call, cancelControl, RequestSlot.call]
    by_cases hmine : token = m.controlToken
    · subst hmine
      simpa [hstate, hresponse] using Current.free (free_reset hkeeps.idle)
    · simpa [hmine, Ne.symm hmine] using hsame
  | free hfree =>
    refine hsame.idle ?_ rfl
    simp [cancelControl, hfree.2]
  | command _ _ hstate | abandoned hstate =>
    refine hsame.idle ?_ rfl
    simp [cancelControl, hstate]

theorem call (h : Current m slot) (next : MailboxCall Fields Response) : Does m slot next := by
  cases next with
  | post command => exact h.post command
  | take => exact h.take
  | postControl request => exact h.postControl request
  | takeControl => exact h.takeControl
  | completeControl token response => exact h.completeControl token response
  | pollControl token => exact h.pollControl token
  | cancelControl token wanted => exact h.cancelControl token wanted

/-- What the calls of any interleaving have done is complete lives and the beginning of one. -/
theorem calls (h : Current m slot) (interleaving : List (MailboxCall Fields Response)) :
    ∃ (lives : List (List (MailboxEvent Fields Response))) (slot' : RequestSlot Fields Response),
      (∀ life ∈ lives, Life life) ∧
      slot.begun ++ (m.calls interleaving).1 = lives.flatten ++ slot'.begun ∧
      Current (m.calls interleaving).2 slot' := by
  induction interleaving generalizing m slot with
  | nil => exact ⟨[], slot, by simp, append_nil _, h⟩
  | cons next rest ih =>
    obtain ⟨hevents, hnext⟩ := h.call next
    obtain ⟨lives, slot', hlives, hlater, hend⟩ := ih hnext
    unfold CommandMailbox.calls
    dsimp only
    rw [← append_assoc, hevents]
    rcases slot.begun_call (nextToken m.nextControlToken) next with hbegun | ⟨hlife, hfree⟩
    · rw [← hbegun]
      exact ⟨lives, slot', hlives, hlater, hend⟩
    · rw [hfree] at hlater
      refine ⟨_ :: lives, slot', forall_mem_cons.2 ⟨hlife, hlives⟩, ?_, hend⟩
      rw [flatten_cons, append_assoc _ lives.flatten, ← hlater]
      rfl

/-- The state of the slot is that of one life, so a command and a request are never both pending. -/
theorem exclusive (h : Current m slot) : m.command = .none ∨ m.controlState = .empty := by
  cases h with
  | free hfree => exact .inl hfree.1
  | command hcommand hsome hstate => exact .inr hstate
  | posted hstate hkeeps | running hstate hkeeps | abandoned hstate hkeeps
  | complete hstate hkeeps => exact .inl hkeeps.idle

end Current

/-! ### The text buffer -/

/-- While a request is running or abandoned no call touches the buffer but the one that frees the
slot. -/
theorem CommandMailbox.controlText_call {m : CommandMailbox Fields Response}
    (hstate : m.controlState = .running ∨ m.controlState = .abandoned)
    (next : MailboxCall Fields Response) :
    (m.call next).2.controlText = m.controlText ∨ (m.call next).2.controlState = .empty := by
  have hbusy : m.controlState ≠ .empty ∧ m.controlState ≠ .complete := by
    rcases hstate with h | h
    all_goals simp [h]
  cases next
  all_goals
    simp only [call, post, take, postControl, takeControl, completeControl, pollControl, cancelControl,
      resetControlLocked]
    grind

/-! ### Tokens -/

def tokenOf (number : Nat) : UInt32 := UInt32.ofNat (number % (2 ^ 32 - 1) + 1)

theorem tokenOf_toNat (number : Nat) : (tokenOf number).toNat = number % (2 ^ 32 - 1) + 1 := by
  unfold tokenOf
  rw [UInt32.toNat_ofNat']
  omega

theorem nextToken_tokenOf (number : Nat) : nextToken (tokenOf number) = tokenOf (number + 1) := by
  have hnumber := tokenOf_toNat number
  have hnext := tokenOf_toNat (number + 1)
  have hadd : (tokenOf number + 1).toNat = ((tokenOf number).toNat + 1) % 2 ^ 32 := UInt32.toNat_add _ _
  unfold nextToken
  split
  · rename_i hwrap
    apply UInt32.toNat_inj.1
    rw [hwrap] at hadd
    have hzero : (0 : UInt32).toNat = 0 := rfl
    have hone : (1 : UInt32).toNat = 1 := rfl
    omega
  · rename_i hwrap
    apply UInt32.toNat_inj.1
    have hne : (tokenOf number + 1).toNat ≠ 0 := by
      intro h
      exact hwrap (UInt32.toNat_inj.1 h)
    omega

/-- Two posts get the same token only when a whole cycle of posts lies between them. -/
theorem tokenOf_ne {i j : Nat} (hij : i < j) (hnear : j < i + (2 ^ 32 - 1)) : tokenOf i ≠ tokenOf j := by
  intro h
  have hi := tokenOf_toNat i
  have hj := tokenOf_toNat j
  rw [h] at hi
  omega

def postedToken : MailboxEvent Fields Response → Option UInt32
  | posted token _ => some token
  | _ => none

theorem CommandMailbox.postedToken_call (m : CommandMailbox Fields Response) (next : MailboxCall Fields Response) :
    ((m.call next).1.filterMap postedToken = [] ∧
      (m.call next).2.nextControlToken = m.nextControlToken) ∨
    ((m.call next).1.filterMap postedToken = [nextToken m.nextControlToken] ∧
      (m.call next).2.nextControlToken = nextToken m.nextControlToken) := by
  cases next with
  | postControl request =>
    simp only [call, postControl]
    by_cases hpostable : Postable request
    · rw [if_neg (not_not_intro hpostable)]
      split
      · exact .inr ⟨rfl, rfl⟩
      · exact .inl ⟨rfl, rfl⟩
    · rw [if_pos hpostable]
      exact .inl ⟨rfl, rfl⟩
  | post | take | takeControl | completeControl | pollControl | cancelControl =>
    simp only [call, post, take, takeControl, completeControl, pollControl, cancelControl, resetControlLocked]
    grind [postedToken]

theorem CommandMailbox.postedTokens_calls {m : CommandMailbox Fields Response} (number : Nat)
    (hnext : nextToken m.nextControlToken = tokenOf number)
    (interleaving : List (MailboxCall Fields Response)) :
    ∃ count, (m.calls interleaving).1.filterMap postedToken =
      (List.range' number count).map tokenOf := by
  induction interleaving generalizing m number with
  | nil => exact ⟨0, rfl⟩
  | cons next rest ih =>
    have hcall := m.postedToken_call next
    rw [hnext] at hcall
    show ∃ count, ((m.call next).1 ++ ((m.call next).2.calls rest).1).filterMap postedToken = _
    rcases hcall with ⟨hnone, hsame⟩ | ⟨hone, hmoved⟩
    · rw [filterMap_append, hnone, nil_append]
      exact ih number (by rw [hsame, hnext])
    · obtain ⟨count, htokens⟩ := ih (number + 1) (by rw [hmoved, nextToken_tokenOf])
      refine ⟨count + 1, ?_⟩
      rw [filterMap_append, hone, htokens, range'_succ, map_cons]
      rfl

/-! ### Every interleaving -/

/-- The mailbox after some interleaving, what it holds, and what has been done up to there. -/
structure Serial (m : CommandMailbox Fields Response) (trace : List (MailboxEvent Fields Response))
    (slot : RequestSlot Fields Response) : Prop where
  lives : ∃ lives : List (List (MailboxEvent Fields Response)),
    (∀ life ∈ lives, Life life) ∧ trace = lives.flatten ++ slot.begun
  current : Current m slot
  does : ∀ next, Does m slot next
  exclusive : m.command = .none ∨ m.controlState = .empty
  text : ∀ next, m.controlState = .running ∨ m.controlState = .abandoned →
    (m.call next).2.controlText = m.controlText ∨ (m.call next).2.controlState = .empty
  tokens : ∀ i j token, i < j → j < i + (2 ^ 32 - 1) →
    (trace.filterMap postedToken)[i]? = some token →
      (trace.filterMap postedToken)[j]? ≠ some token

/-- Whatever the interleaving of the two sides, every call does what it has to do to what the mailbox
holds, and the requests live one after the other: each is taken at most once, answered at most once
and under its own token, and leaves the slot free. -/
theorem mailbox_serial (interleaving : List (MailboxCall Fields Response)) :
    ∃ slot, Serial (CommandMailbox.init.calls interleaving).2 (CommandMailbox.init.calls interleaving).1 slot := by
  have hinit : Current (CommandMailbox.init : CommandMailbox Fields Response) .free := .free ⟨rfl, rfl⟩
  obtain ⟨lives, slot, hlives, htrace, hcurrent⟩ := hinit.calls interleaving
  have hfirst : nextToken 0 = tokenOf 0 := rfl
  obtain ⟨count, htokens⟩ := CommandMailbox.postedTokens_calls
    (m := (CommandMailbox.init : CommandMailbox Fields Response)) 0 hfirst interleaving
  refine ⟨slot, ⟨lives, hlives, htrace⟩, hcurrent, hcurrent.call, hcurrent.exclusive, ?_, ?_⟩
  · intro next hstate
    exact CommandMailbox.controlText_call hstate next
  · intro i j token hij hnear hi hj
    rw [htokens, getElem?_map, Option.map_eq_some_iff] at hi hj
    obtain ⟨first, hfirst, hi⟩ := hi
    obtain ⟨second, hsecond, hj⟩ := hj
    rw [List.getElem?_eq_some_iff] at hfirst hsecond
    obtain ⟨hfirst, rfl⟩ := hfirst
    obtain ⟨hsecond, rfl⟩ := hsecond
    rw [getElem_range', Nat.one_mul, Nat.zero_add] at hi hj
    exact tokenOf_ne hij hnear (hi.trans hj.symm)

end Bmx.Remote
