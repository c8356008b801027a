import Mathlib.Algebra.BigOperators.Ring.Finset
import Mathlib.Algebra.Order.BigOperators.Group.Finset
import Bmx.Remote.HttpConnectionHold
import Bmx.Remote.HttpServer

/-!
# What the server owns

Every transport that was accepted is held by a slot or has been released, and every one that was
closed is held by a slot that is done with it or has been released. This is kept by everything the
server does, also where a handler calls back in the middle of it.
-/

namespace Bmx.Remote

open Interaction Method List Bool Function

abbrev ServerEvent := Event serverSignature

namespace HttpServer

/-! ### Counts -/

section Counts

variable (P : TransportId → Bool)

def acceptedBy : ServerEvent → Bool
  | ⟨.accept, (.accepted, some transport)⟩ => P transport
  | _ => false

def closedBy : ServerEvent → Bool
  | ⟨.close transport, _⟩ => P transport
  | ⟨.http _ (.transportClose transport), _⟩ => P transport
  | _ => false

def releasedBy : ServerEvent → Bool
  | ⟨.release transport, _⟩ => P transport
  | _ => false

/-- How many transports of this kind have been accepted. -/
def accepts (history : List ServerEvent) : Nat := history.countP (acceptedBy P)

def closes (history : List ServerEvent) : Nat := history.countP (closedBy P)

def releases (history : List ServerEvent) : Nat := history.countP (releasedBy P)

end Counts

def enteredBy (slot : Slot) : ServerEvent → Bool
  | ⟨.enter entered, _⟩ => entered = slot
  | _ => false

def leftBy (slot : Slot) : ServerEvent → Bool
  | ⟨.leave left, _⟩ => left = slot
  | _ => false

/-- How many polls of the connection in a slot have begun. -/
def enters (slot : Slot) (history : List ServerEvent) : Nat := history.countP (enteredBy slot)

def leaves (slot : Slot) (history : List ServerEvent) : Nat := history.countP (leftBy slot)

section Snoc

variable {P : TransportId → Bool} {slot : Slot} (history : List ServerEvent) (event : ServerEvent)

theorem countP_snoc (p : ServerEvent → Bool) :
    (history ++ [event]).countP p = history.countP p + (p event).toNat := by
  rw [countP_append, countP_singleton]
  cases p event <;> rfl

theorem accepts_snoc : accepts P (history ++ [event]) = accepts P history + (acceptedBy P event).toNat :=
  countP_snoc history event _

theorem closes_snoc : closes P (history ++ [event]) = closes P history + (closedBy P event).toNat :=
  countP_snoc history event _

theorem releases_snoc : releases P (history ++ [event]) = releases P history + (releasedBy P event).toNat :=
  countP_snoc history event _

theorem enters_snoc : enters slot (history ++ [event]) = enters slot history + (enteredBy slot event).toNat :=
  countP_snoc history event _

theorem leaves_snoc : leaves slot (history ++ [event]) = leaves slot history + (leftBy slot event).toNat :=
  countP_snoc history event _

end Snoc

/-- What is true of the history at every point. Transports of any kind are released as often as they
were closed at most, and closed as often as they were accepted; no more are open than there may be
connections; and a poll of a connection has ended before the next one begins. -/
structure Safe (maximum : Nat) (history : List ServerEvent) : Prop where
  released : ∀ P, releases P history ≤ closes P history
  closed : ∀ P, closes P history ≤ accepts P history
  limit : accepts (fun _ => true) history ≤ closes (fun _ => true) history + maximum
  polls : ∀ slot, enters slot history ≤ leaves slot history + 1

def held (P : TransportId → Bool) (c : HttpConnection) : Nat :=
  match c.transport with
  | some transport => (P transport).toNat
  | none => 0

/-- Whether the connection holds one that it is done with. -/
def finished (P : TransportId → Bool) (c : HttpConnection) : Nat := if c.active then 0 else held P c

def total (weight : HttpConnection → Nat) (server : HttpServer) : Nat :=
  ∑ slot, weight (server.connections slot)

@[simp] theorem setConnection_same (server : HttpServer) (slot : Slot) (c : HttpConnection) :
    (server.setConnection slot c).connections slot = c := update_self _ _ _

theorem setConnection_other {server : HttpServer} {slot other : Slot} {c : HttpConnection}
    (h : other ≠ slot) : (server.setConnection slot c).connections other = server.connections other :=
  update_of_ne h _ _

theorem total_setConnection (weight : HttpConnection → Nat) (server : HttpServer) (slot : Slot) (c : HttpConnection) :
    total weight (server.setConnection slot c) + weight (server.connections slot) =
      total weight server + weight c := by
  have hsplit (connections : Slot → HttpConnection) : ∑ other, weight (connections other) =
      weight (connections slot) + ∑ other ∈ Finset.univ.erase slot, weight (connections other) :=
    (Finset.add_sum_erase _ _ (Finset.mem_univ slot)).symm
  have hrest : ∑ other ∈ Finset.univ.erase slot, weight ((server.setConnection slot c).connections other) =
      ∑ other ∈ Finset.univ.erase slot, weight (server.connections other) := by
    refine Finset.sum_congr rfl fun other hother => ?_
    rw [setConnection_other (Finset.ne_of_mem_erase hother)]
  rw [total, total, hsplit, hsplit server.connections, hrest, setConnection_same]
  omega

/-- What the server owns, between two calls. -/
structure Owns (maximum : Nat) (server : HttpServer) (history : List ServerEvent) : Prop where
  config : server.config.maximumConnections = maximum
  valid : server.valid = true → server.listener = true ∧ server.config.valid = true
  idle : ∀ slot : Slot, maximum ≤ slot.val ∨ server.valid = false →
    (server.connections slot).active = false ∧ (server.connections slot).transport = none
  holds : ∀ slot, (server.connections slot).active = true → (server.connections slot).transport ≠ none
  accepted : ∀ P, accepts P history = releases P history + total (held P) server
  closed : ∀ P, closes P history = releases P history + total (finished P) server
  polled : ∀ slot, enters slot history = leaves slot history + (server.polling slot).toNat

theorem finished_le_held (P : TransportId → Bool) (c : HttpConnection) : finished P c ≤ held P c := by
  unfold finished
  split
  · exact Nat.zero_le _
  · exact Nat.le_refl _

theorem card_slots (maximum : Nat) : ∑ slot : Slot, (if slot.val < maximum then 1 else 0) ≤ maximum := by
  rw [← Finset.card_filter]
  calc (Finset.univ.filter fun slot : Slot => slot.val < maximum).card
      ≤ (Finset.range maximum).card :=
        Finset.card_le_card_of_injOn Fin.val (fun slot hslot => by simpa using hslot)
          (fun _ _ _ _ h => Fin.ext h)
    _ = maximum := Finset.card_range maximum

theorem Owns.safe {maximum : Nat} {server : HttpServer} {history : List ServerEvent}
    (h : Owns maximum server history) : Safe maximum history where
  released P := by
    rw [h.closed]
    omega
  closed P := by
    have hle : total (finished P) server ≤ total (held P) server :=
      Finset.sum_le_sum fun _ _ => finished_le_held P _
    rw [h.closed, h.accepted]
    omega
  limit := by
    have hslot (slot : Slot) : held (fun _ => true) (server.connections slot) ≤
        finished (fun _ => true) (server.connections slot) + if slot.val < maximum then 1 else 0 := by
      by_cases hused : slot.val < maximum
      · have hone : held (fun _ => true) (server.connections slot) ≤ 1 := by
          unfold held
          split
          · exact Nat.le_refl _
          · exact Nat.zero_le _
        rw [if_pos hused]
        omega
      · have hnone := (h.idle slot (.inl (Nat.le_of_not_lt hused))).2
        simp [held, hnone]
    have hle : total (held fun _ => true) server ≤ total (finished fun _ => true) server + maximum := by
      calc total (held fun _ => true) server
          ≤ ∑ slot, (finished (fun _ => true) (server.connections slot) +
              if slot.val < maximum then 1 else 0) := Finset.sum_le_sum fun slot _ => hslot slot
        _ ≤ total (finished fun _ => true) server + maximum := by
            rw [Finset.sum_add_distrib]
            exact Nat.add_le_add_left (card_slots maximum) _
    rw [h.closed, h.accepted]
    omega
  polls slot := by
    have hone := toNat_le (server.polling slot)
    rw [h.polled]
    omega

/-! ### Steps -/

section Steps

variable {maximum : Nat} {server server' : HttpServer} {history : List ServerEvent}

/-- An exchange that is about no transport and no poll. -/
def Neutral (event : ServerEvent) : Prop :=
  (∀ P, acceptedBy P event = false) ∧ (∀ P, closedBy P event = false) ∧
    (∀ P, releasedBy P event = false) ∧ (∀ slot, enteredBy slot event = false) ∧
    ∀ slot, leftBy slot event = false

theorem neutral_http {slot : Slot} {op : HttpOp} (hop : op.closes = false) (answer : op.Answer) :
    Neutral ⟨.http slot op, answer⟩ := by
  refine ⟨fun _ => rfl, fun _ => ?_, fun _ => rfl, fun _ => rfl, fun _ => rfl⟩
  cases op with
  | transportClose transport => cases hop
  | _ => rfl

theorem neutral_nested (slot : Slot) (op : HttpOp) (times : List Nat) : Neutral ⟨.nested slot op, times⟩ :=
  ⟨fun _ => rfl, fun _ => rfl, fun _ => rfl, fun _ => rfl, fun _ => rfl⟩

theorem Owns.neutral {event : ServerEvent} (h : Owns maximum server history) (hevent : Neutral event) :
    Owns maximum server (history ++ [event]) := by
  obtain ⟨haccepted, hclosed, hreleased, hentered, hleft⟩ := hevent
  refine ⟨h.config, h.valid, h.idle, h.holds, fun P => ?_, fun P => ?_, fun slot => ?_⟩
  · rw [accepts_snoc, releases_snoc, haccepted, hreleased]
    exact h.accepted P
  · rw [closes_snoc, releases_snoc, hclosed, hreleased]
    exact h.closed P
  · rw [enters_snoc, leaves_snoc, hentered, hleft]
    exact h.polled slot

/-- Two states of a connection that look the same from outside. -/
def Same (c c' : HttpConnection) : Prop := c'.transport = c.transport ∧ c'.active = c.active

theorem Same.held {c c' : HttpConnection} (h : Same c c') (P : TransportId → Bool) : held P c' = held P c := by
  rw [HttpServer.held, h.1, HttpServer.held]

theorem Same.finished {c c' : HttpConnection} (h : Same c c') (P : TransportId → Bool) :
    finished P c' = finished P c := by
  rw [HttpServer.finished, h.2, h.held, HttpServer.finished]

/-- A connection that is exchanged, with the events that explain what it holds. -/
theorem Owns.set {slot : Slot} {c : HttpConnection} (events : List ServerEvent) (h : Owns maximum server history)
    (hidle : maximum ≤ slot.val ∨ server.valid = false → c.active = false ∧ c.transport = none)
    (hholds : c.active = true → c.transport ≠ none)
    (haccepted : ∀ P, accepts P events + HttpServer.held P (server.connections slot) =
      releases P events + HttpServer.held P c)
    (hclosed : ∀ P, closes P events + HttpServer.finished P (server.connections slot) =
      releases P events + HttpServer.finished P c)
    (hpolled : ∀ other, enters other events = leaves other events) :
    Owns maximum (server.setConnection slot c) (history ++ events) where
  config := h.config
  valid := h.valid
  idle other hother := by
    by_cases hsame : other = slot
    · subst hsame
      rw [setConnection_same]
      exact hidle hother
    · rw [setConnection_other hsame]
      exact h.idle other hother
  holds other hactive := by
    by_cases hsame : other = slot
    · subst hsame
      rw [setConnection_same] at hactive ⊢
      exact hholds hactive
    · rw [setConnection_other hsame] at hactive ⊢
      exact h.holds other hactive
  accepted P := by
    have htotal := total_setConnection (HttpServer.held P) server slot c
    have hevents := haccepted P
    have hbefore := h.accepted P
    unfold accepts releases at *
    rw [countP_append, countP_append]
    omega
  closed P := by
    have htotal := total_setConnection (HttpServer.finished P) server slot c
    have hevents := hclosed P
    have hbefore := h.closed P
    unfold closes releases at *
    rw [countP_append, countP_append]
    omega
  polled other := by
    have hevents := hpolled other
    have hbefore := h.polled other
    unfold enters leaves at *
    rw [countP_append, countP_append, hevents, hbefore]
    exact Nat.add_right_comm _ _ _

theorem Owns.set_same {slot : Slot} {c : HttpConnection} (h : Owns maximum server history)
    (hc : Same (server.connections slot) c) : Owns maximum (server.setConnection slot c) history := by
  refine append_nil history ▸ h.set [] (fun hother => ?_) (fun hactive => ?_) (fun P => ?_) (fun P => ?_) fun _ => rfl
  · rw [hc.1, hc.2]
    exact h.idle slot hother
  · rw [hc.1]
    exact h.holds slot (hc.2 ▸ hactive)
  · rw [hc.held]
    rfl
  · rw [hc.finished]
    rfl

/-- A connection that has just closed its transport and is done with it. -/
theorem Owns.set_gone {slot : Slot} {c : HttpConnection} {transport : TransportId}
    (h : Owns maximum server history) (hactive : (server.connections slot).active = true)
    (hheld : (server.connections slot).transport = some transport)
    (hc : c.active = false ∧ c.transport = some transport) :
    Owns maximum (server.setConnection slot c)
      (history ++ [⟨.http slot (.transportClose transport), ()⟩]) := by
  refine h.set _ (fun hother => ?_) (fun hstill => ?_) (fun P => ?_) (fun P => ?_) fun _ => rfl
  · have hidle := h.idle slot hother
    rw [hheld] at hidle
    cases hidle.2
  · exact absurd (hc.1.symm.trans hstill) nofun
  · rw [HttpServer.held, HttpServer.held, hc.2, hheld]
    rfl
  · have hclosed : closes P [⟨.http slot (.transportClose transport), ()⟩] = (P transport).toNat :=
      (countP_snoc [] _ _).trans (Nat.zero_add _)
    simp [hclosed, HttpServer.finished, HttpServer.held, hactive, hc.1, hc.2, releases, releasedBy]

theorem Owns.set_released {slot : Slot} {transport : TransportId} (h : Owns maximum server history)
    (hinactive : (server.connections slot).active = false)
    (hheld : (server.connections slot).transport = some transport) :
    Owns maximum (server.setConnection slot { server.connections slot with transport := none })
      (history ++ [⟨.release transport, ()⟩]) := by
  have hreleased (P : TransportId → Bool) : releases P [⟨.release transport, ()⟩] = (P transport).toNat :=
    (countP_snoc [] _ _).trans (Nat.zero_add _)
  refine h.set _ (fun _ => ⟨hinactive, rfl⟩) (fun hstill => ?_) (fun P => ?_) (fun P => ?_) fun _ => rfl
  · exact absurd (hinactive.symm.trans hstill) nofun
  · simp [hreleased, HttpServer.held, hheld, accepts, acceptedBy]
  · simp [hreleased, HttpServer.finished, HttpServer.held, hinactive, hheld, closes, closedBy]

end Steps

/-! ### Methods -/

/-- The surroundings of the server: they answer anything, and see only what is safe. -/
abbrev serverContract (maximum : Nat) : Contract serverSignature (List ServerEvent) :=
  monitorContract (fun _ history => Safe maximum history) fun history event => history ++ [event]

/-- A connection that may have been taken down since. -/
def Lowered (c c' : HttpConnection) : Prop :=
  Same c c' ∨ c'.active = false ∧ (c'.transport = c.transport ∨ c'.transport = none)

theorem Lowered.refl (c : HttpConnection) : Lowered c c := .inl ⟨rfl, rfl⟩

theorem Lowered.trans {c c' c'' : HttpConnection} (h : Lowered c c') (h' : Lowered c' c'') : Lowered c c'' := by
  rcases h' with ⟨htransport', hactive'⟩ | ⟨hactive', htransport'⟩
  · rcases h with ⟨htransport, hactive⟩ | ⟨hactive, htransport⟩
    · exact .inl ⟨htransport'.trans htransport, hactive'.trans hactive⟩
    · refine .inr ⟨hactive'.trans hactive, ?_⟩
      rw [htransport']
      exact htransport
  · refine .inr ⟨hactive', ?_⟩
    rcases htransport' with hsame | hnone
    · rcases h with ⟨htransport, -⟩ | ⟨-, htransport⟩
      · exact .inl (hsame.trans htransport)
      · rw [hsame]
        exact htransport
    · exact .inr hnone

/-- What the server does to itself while it polls: connections may go down, and that is all. -/
structure Kept (server server' : HttpServer) : Prop where
  listener : server'.listener = server.listener
  config : server'.config = server.config
  valid : server'.valid = server.valid
  polling : server'.polling = server.polling
  slots : ∀ slot, Lowered (server.connections slot) (server'.connections slot)

theorem Kept.refl (server : HttpServer) : Kept server server := ⟨rfl, rfl, rfl, rfl, fun _ => .refl _⟩

theorem Kept.trans {server server' server'' : HttpServer} (h : Kept server server')
    (h' : Kept server' server'') : Kept server server'' :=
  ⟨h'.listener.trans h.listener, h'.config.trans h.config, h'.valid.trans h.valid,
    h'.polling.trans h.polling, fun slot => (h.slots slot).trans (h'.slots slot)⟩

theorem kept_setConnection {server : HttpServer} {slot : Slot} {c : HttpConnection}
    (h : Lowered (server.connections slot) c) : Kept server (server.setConnection slot c) := by
  refine ⟨rfl, rfl, rfl, rfl, fun other => ?_⟩
  by_cases hsame : other = slot
  · subst hsame
    rw [setConnection_same]
    exact h
  · rw [setConnection_other hsame]
    exact .refl _

/-- What may be called back: it releases what it has finished. -/
def CallsBack (maximum : Nat) (nested : Nat → ServerMethod Unit) : Prop :=
  ∀ nowMs server history, Owns maximum server history →
    (nested nowMs).Holds ((serverContract maximum).alone HttpServer)
      (fun _ server' history' => Owns maximum server' history' ∧ Kept server server' ∧
        ∀ slot, Same (server.connections slot) (server'.connections slot) ∨
          (server'.connections slot).active = false ∧
            (server'.connections slot).transport = none) server history

section Methods

variable {maximum : Nat} {server : HttpServer} {history : List ServerEvent}
  {nested : Nat → ServerMethod Unit}

theorem ask_holds (op : ServerOp) {Q : op.Answer → HttpServer → List ServerEvent → Prop}
    (h : Safe maximum history) (hQ : ∀ answer : op.Answer, Q answer server (history ++ [⟨op, answer⟩])) :
    (ask op).Holds ((serverContract maximum).alone HttpServer) Q server history := by
  refine holds_alone_call.2 ⟨h, ?_⟩
  rintro answer history' rfl
  exact hQ answer

theorem ask_bind_holds {op : ServerOp} {α : Type} {f : op.Answer → ServerMethod α}
    {Q : α → HttpServer → List ServerEvent → Prop} (h : Safe maximum history)
    (hf : ∀ answer : op.Answer, (f answer).Holds ((serverContract maximum).alone HttpServer) Q server
      (history ++ [⟨op, answer⟩])) :
    (ask op >>= f).Holds ((serverContract maximum).alone HttpServer) Q server history :=
  (holds_bind _ _ server history).2 (ask_holds op h hf)

theorem callBack_holds (hnested : CallsBack maximum nested) (times : List Nat) (h : Owns maximum server history) :
    (callBack nested times).Holds ((serverContract maximum).alone HttpServer)
      (fun _ server' history' => Owns maximum server' history' ∧ Kept server server' ∧
        ∀ slot, Same (server.connections slot) (server'.connections slot) ∨
          (server'.connections slot).active = false ∧
            (server'.connections slot).transport = none) server history := by
  induction times generalizing server history with
  | nil => exact ⟨h, .refl _, fun _ => .inl ⟨rfl, rfl⟩⟩
  | cons nowMs rest ih =>
    refine (hnested nowMs server history h).bind ?_
    rintro _ server' history' ⟨howns, hkept, hslots⟩
    refine (ih howns).mono ?_
    rintro _ server'' history'' ⟨howns', hkept', hslots'⟩
    refine ⟨howns', hkept.trans hkept', fun slot => ?_⟩
    rcases hslots' slot with ⟨htransport, hactive⟩ | hdown
    · rcases hslots slot with ⟨htransport', hactive'⟩ | ⟨hactive', htransport'⟩
      · exact .inl ⟨htransport.trans htransport', hactive.trans hactive'⟩
      · exact .inr ⟨hactive.trans hactive', htransport.trans htransport'⟩
    · exact .inr hdown

open HttpConnection in
/-- A method of a connection that keeps to the rules of its slot keeps what the server owns. -/
theorem hosted_holds {α : Type} (hnested : CallsBack maximum nested) {slot : Slot}
    {p : Program (httpSignature.shared HttpConnection) (α × HttpConnection)} {hold : Hold}
    {Q : α → HttpConnection → Prop} (hp : p.Holds slotContract (fun r h' => LiveOrGone r.2 h' ∧ Q r.1 r.2) hold)
    (hclosing : hold.closing = false) (h : Owns maximum server history)
    (htransport : (server.connections slot).transport = hold.transport)
    (hactive : (server.connections slot).active = hold.active) :
    (hosted nested slot p).Holds ((serverContract maximum).alone HttpServer)
      (fun value server' history' => Owns maximum server' history' ∧ Kept server server' ∧
        Q value (server'.connections slot)) server history := by
  induction p generalizing server history hold with
  | done reply =>
    obtain ⟨value, c⟩ := reply
    rw [hosted, holds_bind, holds_modify, holds_pure]
    obtain ⟨hlive | hgone, hQ⟩ := hp
    · have hsame : Same (server.connections slot) c :=
        ⟨hlive.transport.trans htransport.symm, hlive.active.trans hactive.symm⟩
      refine ⟨h.set_same hsame, kept_setConnection (.inl hsame), ?_⟩
      rw [setConnection_same]
      exact hQ
    · rw [hgone.closing] at hclosing
      cases hclosing
  | call op next ih =>
    obtain ⟨op, c⟩ := op
    obtain ⟨⟨-, hctransport, hcactive, hholds, hclose⟩, hnext⟩ := hp
    have hsame : Same (server.connections slot) c :=
      ⟨hctransport.trans htransport.symm, hcactive.trans hactive.symm⟩
    have howns := h.set_same hsame
    rw [hosted, holds_bind, holds_modify]
    by_cases hop : op.closes = true
    · obtain ⟨transport, rfl⟩ : ∃ transport, op = .transportClose transport := by
        cases op with
        | transportClose transport => exact ⟨transport, rfl⟩
        | _ => cases hop
      have hheld := hclose transport rfl
      have hstill : hold.active = true := hholds.2 (by rw [hheld]; exact nofun)
      refine ask_bind_holds howns.safe fun answer => ?_
      rw [holds_bind, holds_get, setConnection_same]
      have hlast := hnext (answer, c) { hold with closing := true } ⟨rfl, rfl⟩
      generalize next (answer, c) = q at hlast ⊢
      cases q with
      | call op' next' => exact absurd hlast.1.1 nofun
      | done reply =>
        obtain ⟨value, c'⟩ := reply
        obtain ⟨hlive | hgone, hQ⟩ := hlast
        · exact absurd hlive.closing nofun
        · rw [hosted, holds_bind, holds_modify, holds_pure]
          have hc' : c'.active = false ∧ c'.transport = some transport :=
            ⟨hgone.active, hgone.transport.trans hheld⟩
          refine ⟨howns.set_gone ?_ ?_ hc', ?_, ?_⟩
          · rw [setConnection_same, hcactive]
            exact hstill
          · rw [setConnection_same, hctransport]
            exact hheld
          · refine (kept_setConnection (.inl hsame)).trans (kept_setConnection (.inr ⟨hc'.1, .inl ?_⟩))
            rw [setConnection_same, hc'.2, hctransport, hheld]
          · rw [setConnection_same]
            exact hQ
    · have hop : op.closes = false := eq_false_iff.2 hop
      have hrule {reply : op.Answer × HttpConnection} {h' : Hold}
          (hreply : h' = ⟨reply.2.transport, reply.2.active, false⟩)
          (hview : h' = ⟨hold.transport, hold.active, false⟩ ∨ h' = ⟨none, false, false⟩) :
          (next reply).Holds slotContract (fun r h' => LiveOrGone r.2 h' ∧ Q r.1 r.2) h' := by
        refine hnext reply h' ?_
        cases op with
        | transportClose transport => cases hop
        | _ => exact ⟨hreply, hview⟩
      have hanswer {server₁ : HttpServer} {history₁ : List ServerEvent}
          (howns₁ : Owns maximum server₁ history₁)
          (hview : Same c (server₁.connections slot) ∨ (server₁.connections slot).active = false ∧
            (server₁.connections slot).transport = none) :
          (do
            let answer ← ask (.http slot op)
            let server ← get
            hosted nested slot (next (answer, server.connections slot)) : ServerMethod α).Holds
            ((serverContract maximum).alone HttpServer)
            (fun value server' history' => Owns maximum server' history' ∧ Kept server₁ server' ∧
              Q value (server'.connections slot)) server₁ history₁ := by
        refine ask_bind_holds howns₁.safe fun answer => ?_
        rw [holds_bind, holds_get]
        refine ih _ (hrule rfl ?_) rfl (howns₁.neutral (neutral_http hop answer)) rfl rfl
        rcases hview with ⟨htransport', hactive'⟩ | ⟨hactive', htransport'⟩
        · exact .inl (by rw [htransport', hactive', hctransport, hcactive])
        · exact .inr (by rw [htransport', hactive'])
      have hset : Kept server (server.setConnection slot c) := kept_setConnection (.inl hsame)
      by_cases hhandler : op.isHandler = true
      · simp only [if_pos hhandler]
        refine ask_bind_holds howns.safe fun times => ?_
        refine (callBack_holds hnested times (howns.neutral (neutral_nested slot op times))).bind ?_
        rintro _ server₁ history₁ ⟨howns₁, hkept₁, hslots⟩
        have hview := hslots slot
        rw [setConnection_same] at hview
        refine (hanswer howns₁ hview).mono ?_
        rintro value server' history' ⟨howns', hkept', hQ⟩
        exact ⟨howns', (hset.trans hkept₁).trans hkept', hQ⟩
      · simp only [if_neg hhandler]
        refine (hanswer howns (.inl ?_)).mono ?_
        · rw [setConnection_same]
          exact ⟨rfl, rfl⟩
        · rintro value server' history' ⟨howns', hkept', hQ⟩
          exact ⟨howns', hset.trans hkept', hQ⟩

/-! ### Polls -/

theorem Owns.setPolling {slot : Slot} {value : Bool} {event : ServerEvent} (h : Owns maximum server history)
    (hplain : ∀ P, acceptedBy P event = false ∧ closedBy P event = false ∧ releasedBy P event = false)
    (hother : ∀ other, other ≠ slot → enteredBy other event = false ∧ leftBy other event = false)
    (hslot : (enteredBy slot event).toNat + (server.polling slot).toNat = (leftBy slot event).toNat + value.toNat) :
    Owns maximum (server.setPolling slot value) (history ++ [event]) where
  config := h.config
  valid := h.valid
  idle := h.idle
  holds := h.holds
  accepted P := by
    rw [accepts_snoc, releases_snoc, (hplain P).1, (hplain P).2.2]
    exact h.accepted P
  closed P := by
    rw [closes_snoc, releases_snoc, (hplain P).2.1, (hplain P).2.2]
    exact h.closed P
  polled other := by
    rw [enters_snoc, leaves_snoc, h.polled]
    show _ = _ + (Function.update server.polling slot value other).toNat
    by_cases hsame : other = slot
    · subst hsame
      rw [update_self]
      omega
    · rw [update_of_ne hsame, (hother other hsame).1, (hother other hsame).2]
      exact Nat.add_right_comm _ _ _

theorem Owns.entered {slot : Slot} (h : Owns maximum server history) (hfree : server.polling slot = false) :
    Owns maximum (server.setPolling slot true) (history ++ [⟨.enter slot, ()⟩]) :=
  h.setPolling (fun _ => ⟨rfl, rfl, rfl⟩) (fun _ hother => ⟨decide_eq_false hother.symm, rfl⟩)
    (by simp [enteredBy, leftBy, hfree])

theorem Owns.left {slot : Slot} (h : Owns maximum server history) (hpolling : server.polling slot = true) :
    Owns maximum (server.setPolling slot false) (history ++ [⟨.leave slot, ()⟩]) :=
  h.setPolling (fun _ => ⟨rfl, rfl, rfl⟩) (fun _ hother => ⟨rfl, decide_eq_false hother.symm⟩)
    (by simp [enteredBy, leftBy, hpolling])

open HttpConnection in
theorem pollSlot_holds (hnested : CallsBack maximum nested) (nowMs : Nat) {slot : Slot}
    (h : Owns maximum server history) (hactive : (server.connections slot).active = true)
    (hfree : server.polling slot = false) :
    (pollSlot nested nowMs slot).Holds ((serverContract maximum).alone HttpServer)
      (fun _ server' history' => Owns maximum server' history' ∧ Kept server server')
      server history := by
  unfold pollSlot
  rw [holds_bind, holds_modify]
  refine ask_bind_holds h.safe fun _ => ?_
  rw [holds_bind, holds_get]
  have hentered := h.entered hfree
  have hlive : Live (server.connections slot)
      ⟨(server.connections slot).transport, (server.connections slot).active, false⟩ :=
    ⟨rfl, rfl, rfl, fun _ => h.holds slot hactive, fun _ => hactive⟩
  have hpoll := (poll_ending nowMs _ _ hlive).mono (Q := fun value c' h' => LiveOrGone c' h' ∧ True)
    fun _ _ _ hdone => ⟨hdone, trivial⟩
  refine (hosted_holds (Q := fun _ _ => True) hnested hpoll rfl hentered rfl rfl).bind ?_
  rintro progress server₁ history₁ ⟨howns₁, hkept₁, -⟩
  refine ask_bind_holds howns₁.safe fun _ => ?_
  rw [holds_bind, holds_modify, holds_pure]
  have hpolling : server₁.polling slot = true := by
    rw [hkept₁.polling]
    exact update_self _ _ _
  refine ⟨howns₁.left hpolling, hkept₁.listener, hkept₁.config, hkept₁.valid, ?_, hkept₁.slots⟩
  show Function.update server₁.polling slot false = server.polling
  rw [hkept₁.polling]
  show Function.update (Function.update server.polling slot true) slot false = server.polling
  rw [update_idem, ← hfree, update_eq_self]

/-- Connections that are done are let go, and nothing else happens to them. -/
structure Released (server server' : HttpServer) (slots : List Slot) : Prop where
  kept : Kept server server'
  active : ∀ slot, (server'.connections slot).active = (server.connections slot).active
  free : ∀ slot ∈ slots, (server'.connections slot).active = true ∨
    (server'.connections slot).transport = none

theorem released_setConnection {slot : Slot} {c : HttpConnection} (hlowered : Lowered (server.connections slot) c)
    (hactive : c.active = (server.connections slot).active)
    (hfree : c.active = true ∨ c.transport = none) : Released server (server.setConnection slot c) [slot] := by
  refine ⟨kept_setConnection hlowered, fun other => ?_, fun other hother => ?_⟩
  · by_cases hsame : other = slot
    · subst hsame
      rw [setConnection_same]
      exact hactive
    · rw [setConnection_other hsame]
  · obtain rfl := mem_singleton.1 hother
    rw [setConnection_same]
    exact hfree

theorem releaseSlot_holds (slot : Slot) (h : Owns maximum server history) :
    (releaseSlot slot).Holds ((serverContract maximum).alone HttpServer)
      (fun _ server' history' => Owns maximum server' history' ∧ Released server server' [slot])
      server history := by
  unfold releaseSlot
  rw [holds_bind, holds_get]
  cases hactive : (server.connections slot).active with
  | true =>
    have htake : (server.connections slot).takeFinishedTransport = (none, server.connections slot) :=
      if_pos hactive
    have hsame : Same (server.connections slot) (server.connections slot) := ⟨rfl, rfl⟩
    simp only [htake]
    exact ⟨h.set_same hsame, released_setConnection (.inl hsame) rfl (.inl hactive)⟩
  | false =>
    have htake : (server.connections slot).takeFinishedTransport =
        ((server.connections slot).transport, { server.connections slot with transport := none }) :=
      if_neg (by rw [hactive]; exact nofun)
    have hreleased : Released server (server.setConnection slot
        { server.connections slot with transport := none }) [slot] :=
      released_setConnection (.inr ⟨hactive, .inr rfl⟩) rfl (.inr rfl)
    simp only [htake]
    cases htransport : (server.connections slot).transport with
    | none =>
      have hsame : Same (server.connections slot)
          { server.connections slot with transport := none } := ⟨htransport.symm, rfl⟩
      exact ⟨h.set_same hsame, hreleased⟩
    | some transport =>
      rw [holds_bind, holds_set]
      exact ask_holds (.release transport) h.safe fun _ =>
        ⟨h.set_released hactive htransport, hreleased⟩

theorem releaseSlots_holds (slots : List Slot) (h : Owns maximum server history) :
    (releaseSlots slots).Holds ((serverContract maximum).alone HttpServer)
      (fun _ server' history' => Owns maximum server' history' ∧ Released server server' slots)
      server history := by
  induction slots generalizing server history with
  | nil => exact ⟨h, .refl _, fun _ => rfl, nofun⟩
  | cons slot rest ih =>
    refine (releaseSlot_holds slot h).bind ?_
    rintro _ server₁ history₁ ⟨howns₁, hfirst⟩
    refine (ih howns₁).mono ?_
    rintro _ server₂ history₂ ⟨howns₂, hrest⟩
    refine ⟨howns₂, hfirst.kept.trans hrest.kept, fun other => (hrest.active other).trans
      (hfirst.active other), fun other hother => ?_⟩
    rcases mem_cons.1 hother with rfl | hother
    · -- what the first slot has let go stays so
      rcases hfirst.free other (mem_singleton_self _) with hactive | hnone
      · exact .inl ((hrest.active other).trans hactive)
      · rcases hrest.kept.slots other with ⟨htransport, -⟩ | ⟨-, htransport | htransport⟩
        · exact .inr (htransport.trans hnone)
        · exact .inr (htransport.trans hnone)
        · exact .inr htransport
    · exact hrest.free other hother

theorem mem_slots {slot : Slot} (h : slot.val < server.config.maximumConnections) : slot ∈ server.slots :=
  mem_filter.2 ⟨mem_finRange slot, decide_eq_true h⟩

/-- Every connection that is done has been let go. -/
def AllFree (server : HttpServer) : Prop :=
  ∀ slot, (server.connections slot).active = true ∨ (server.connections slot).transport = none

theorem releaseFinished_holds (h : Owns maximum server history) (hlistener : server.listener = true) :
    releaseFinished.Holds ((serverContract maximum).alone HttpServer)
      (fun _ server' history' => Owns maximum server' history' ∧
        Released server server' server.slots ∧ AllFree server') server history := by
  unfold releaseFinished
  rw [holds_bind, holds_get]
  simp only [if_pos hlistener]
  refine (releaseSlots_holds server.slots h).mono ?_
  rintro _ server' history' ⟨howns, hreleased⟩
  refine ⟨howns, hreleased, fun slot => ?_⟩
  by_cases hused : slot.val < maximum
  · exact hreleased.free slot (mem_slots (by rw [h.config]; exact hused))
  · exact .inr (howns.idle slot (.inl (Nat.le_of_not_lt hused))).2

theorem pollResponses_holds (hnested : CallsBack maximum nested) (nowMs : Nat) (slots : List Slot)
    (h : Owns maximum server history) :
    (pollResponses nested nowMs slots).Holds ((serverContract maximum).alone HttpServer)
      (fun _ server' history' => Owns maximum server' history' ∧ Kept server server')
      server history := by
  induction slots generalizing server history with
  | nil => exact ⟨h, .refl _⟩
  | cons slot rest ih =>
    rw [pollResponses, holds_bind, holds_get]
    by_cases hpoll : ¬ server.polling slot ∧ (server.connections slot).writingResponse
    · simp only [if_pos hpoll]
      obtain ⟨hfree, hwriting⟩ := hpoll
      have hactive : (server.connections slot).active = true := (of_decide_eq_true hwriting).1
      refine (pollSlot_holds hnested nowMs h hactive (eq_false_iff.2 hfree)).bind ?_
      rintro _ server₁ history₁ ⟨howns₁, hkept₁⟩
      refine (ih howns₁).mono ?_
      rintro _ server₂ history₂ ⟨howns₂, hkept₂⟩
      exact ⟨howns₂, hkept₁.trans hkept₂⟩
    · simp only [if_neg hpoll]
      exact ih h

theorem pollResponsesCooperatively_holds (depth : Nat) : CallsBack maximum (pollResponsesCooperatively depth) := by
  induction depth with
  | zero => exact fun nowMs server history h => ⟨h, .refl _, fun _ => .inl ⟨rfl, rfl⟩⟩
  | succ depth ih =>
    intro nowMs server history h
    rw [pollResponsesCooperatively, holds_bind, holds_get]
    by_cases hvalid : server.valid = true
    · simp only [if_pos hvalid]
      refine (pollResponses_holds ih nowMs server.slots h).bind ?_
      rintro _ server₁ history₁ ⟨howns₁, hkept₁⟩
      have hlistener₁ : server₁.listener = true := by
        rw [hkept₁.listener]
        exact (h.valid hvalid).1
      refine (releaseFinished_holds howns₁ hlistener₁).mono ?_
      rintro _ server₂ history₂ ⟨howns₂, hreleased, hfree⟩
      have hkept := hkept₁.trans hreleased.kept
      refine ⟨howns₂, hkept, fun slot => ?_⟩
      rcases hkept.slots slot with hsame | ⟨hinactive, -⟩
      · exact .inl hsame
      · rcases hfree slot with hactive | hnone
        · exact absurd (hinactive.symm.trans hactive) nofun
        · exact .inr ⟨hinactive, hnone⟩
    · simp only [if_neg hvalid]
      exact ⟨h, .refl _, fun _ => .inl ⟨rfl, rfl⟩⟩

/-! ### Accepting -/

/-- While every connection that is done has been let go, an accepted transport finds a slot. -/
theorem install_eq (transport : TransportId) (nowMs : Nat) {slots : List Slot}
    (hvalid : server.config.valid = true) (hfree : AllFree server)
    (hroom : ∃ slot ∈ slots, (server.connections slot).active = false) :
    ∃ slot c, install transport nowMs server slots = (true, server.setConnection slot c) ∧
      slot ∈ slots ∧ (server.connections slot).active = false ∧
      (server.connections slot).transport = none ∧ c.active = true ∧ c.transport = some transport := by
  induction slots with
  | nil =>
    obtain ⟨slot, hslot, -⟩ := hroom
    cases hslot
  | cons slot rest ih =>
    rw [install]
    cases hactive : (server.connections slot).active with
    | true =>
      obtain ⟨other, hother, hinactive⟩ := hroom
      have hrest : ∃ slot ∈ rest, (server.connections slot).active = false := by
        rcases mem_cons.1 hother with rfl | hother
        · exact absurd (hactive.symm.trans hinactive) nofun
        · exact ⟨other, hother, hinactive⟩
      obtain ⟨found, c, hinstall, hfound, hrest⟩ := ih hrest
      refine ⟨found, c, ?_, mem_cons_of_mem _ hfound, hrest⟩
      exact hinstall
    | false =>
      have hnone : (server.connections slot).transport = none :=
        (hfree slot).resolve_left (by rw [hactive]; exact nofun)
      obtain ⟨c, hbegin, hc⟩ := HttpConnection.begin_eq transport nowMs hactive hnone hvalid
      rw [if_neg nofun, hbegin]
      exact ⟨slot, c, rfl, mem_cons_self, hactive, hnone, hc⟩

theorem Owns.set_accepted {slot : Slot} {c : HttpConnection} {transport : TransportId}
    (h : Owns maximum server history) (hvalid : server.valid = true) (hslot : slot.val < maximum)
    (hnone : (server.connections slot).transport = none)
    (hc : c.active = true ∧ c.transport = some transport) :
    Owns maximum (server.setConnection slot c)
      (history ++ [⟨.accept, (.accepted, some transport)⟩]) := by
  have haccepted (P : TransportId → Bool) :
      accepts P [⟨.accept, (.accepted, some transport)⟩] = (P transport).toNat :=
    (countP_snoc [] _ _).trans (Nat.zero_add _)
  refine h.set _ (fun hother => ?_) (fun _ => ?_) (fun P => ?_) (fun P => ?_) fun _ => rfl
  · rcases hother with hbeyond | hinvalid
    · omega
    · exact absurd (hvalid.symm.trans hinvalid) nofun
  · rw [hc.2]
    exact nofun
  · simp [haccepted, HttpServer.held, hnone, hc.2, releases, releasedBy]
  · simp [HttpServer.finished, HttpServer.held, hnone, hc.1, closes, closedBy, releases, releasedBy]

theorem exists_inactive (h : server.activeConnections < server.config.maximumConnections)
    (hvalid : server.config.valid = true) : ∃ slot ∈ server.slots, (server.connections slot).active = false := by
  by_contra hnone
  have hall : server.activeConnections = server.slots.length := by
    refine countP_eq_length.2 fun slot hslot => ?_
    by_contra hinactive
    exact hnone ⟨slot, hslot, eq_false_iff.2 hinactive⟩
  have hcount : ∀ used ≤ httpMaximumConnections,
      ((List.finRange httpMaximumConnections).filter (·.val < used)).length = used := by decide
  have hlength := hcount server.config.maximumConnections (of_decide_eq_true hvalid).2
  have hslots : server.slots.length = server.config.maximumConnections := hlength
  omega

/-- The server after an accept, of which a slot may have been taken. -/
theorem pollAccept_holds (nowMs : Nat) (h : Owns maximum server history)
    (hvalid : server.valid = true) (hfree : AllFree server) :
    (pollAccept nowMs).Holds ((serverContract maximum).alone HttpServer)
      (fun _ server' history' => Owns maximum server' history' ∧ server'.valid = true ∧
        server'.polling = server.polling) server history := by
  unfold pollAccept
  rw [holds_bind, holds_get]
  by_cases hroom : server.activeConnections < server.config.maximumConnections
  · simp only [if_pos hroom]
    refine ask_bind_holds h.safe ?_
    rintro ⟨status, accepted⟩
    have hother {answer : HttpAcceptStatus × Option TransportId}
        (hanswer : ∀ P, acceptedBy P ⟨.accept, answer⟩ = false) {result : Option Bool} :
        (pure result : ServerMethod (Option Bool)).Holds ((serverContract maximum).alone HttpServer)
          (fun _ server' history' => Owns maximum server' history' ∧ server'.valid = true ∧
            server'.polling = server.polling) server (history ++ [⟨.accept, answer⟩]) :=
      ⟨h.neutral ⟨hanswer, fun _ => rfl, fun _ => rfl, fun _ => rfl, fun _ => rfl⟩, hvalid, rfl⟩
    cases status with
    | error => exact hother fun _ => rfl
    | wouldBlock =>
      cases accepted with
      | none | some transport => exact hother fun _ => rfl
    | accepted =>
      cases accepted with
      | none => exact hother fun _ => rfl
      | some transport =>
        have hconfig := (h.valid hvalid).2
        obtain ⟨slot, c, hinstall, hslot, hinactive, hnone, hc⟩ :=
          install_eq transport nowMs hconfig hfree (exists_inactive hroom hconfig)
        have hused : slot.val < maximum := by
          rw [← h.config]
          exact of_decide_eq_true (mem_filter.1 hslot).2
        rw [holds_bind, holds_get]
        simp only [hinstall]
        exact ⟨h.set_accepted hvalid hused hnone hc, hvalid, rfl⟩
  · simp only [if_neg hroom]
    exact ⟨h, hvalid, rfl⟩

theorem pollConnections_holds (hnested : CallsBack maximum nested) (nowMs : Nat) (slots : List Slot)
    (h : Owns maximum server history) :
    (pollConnections nested nowMs slots).Holds ((serverContract maximum).alone HttpServer)
      (fun _ server' history' => Owns maximum server' history' ∧ Kept server server')
      server history := by
  induction slots generalizing server history with
  | nil => exact ⟨h, .refl _⟩
  | cons slot rest ih =>
    rw [pollConnections, holds_bind, holds_get]
    by_cases hpoll : (server.connections slot).active ∧ ¬ server.polling slot
    · simp only [if_pos hpoll]
      obtain ⟨hactive, hfree⟩ := hpoll
      refine (pollSlot_holds hnested nowMs h hactive (eq_false_iff.2 hfree)).bind ?_
      rintro _ server₁ history₁ ⟨howns₁, hkept₁⟩
      refine (ih howns₁).bind ?_
      rintro _ server₂ history₂ ⟨howns₂, hkept₂⟩
      exact ⟨howns₂, hkept₁.trans hkept₂⟩
    · simp only [if_neg hpoll]
      exact ih h

theorem poll_holds (depth nowMs : Nat) (h : Owns maximum server history) :
    (poll depth nowMs).Holds ((serverContract maximum).alone HttpServer)
      (fun _ server' history' => Owns maximum server' history') server history := by
  unfold poll
  rw [holds_bind, holds_get]
  by_cases hvalid : server.valid = true
  · simp only [if_pos hvalid]
    refine (releaseFinished_holds h (h.valid hvalid).1).bind ?_
    rintro _ server₁ history₁ ⟨howns₁, hreleased, hfree⟩
    have hvalid₁ : server₁.valid = true := hreleased.kept.valid.trans hvalid
    refine (pollAccept_holds nowMs howns₁ hvalid₁ hfree).bind ?_
    rintro accepted server₂ history₂ ⟨howns₂, hvalid₂, -⟩
    cases accepted with
    | none => exact howns₂
    | some accepted =>
      rw [holds_bind, holds_get]
      refine (pollConnections_holds (pollResponsesCooperatively_holds depth) nowMs server₂.slots
        howns₂).bind ?_
      rintro progress server₃ history₃ ⟨howns₃, hkept₃⟩
      have hlistener₃ : server₃.listener = true :=
        hkept₃.listener.trans (howns₂.valid hvalid₂).1
      refine (releaseFinished_holds howns₃ hlistener₃).bind ?_
      rintro _ server₄ history₄ ⟨howns₄, -, -⟩
      exact howns₄
  · simp only [if_neg hvalid]
    exact h

open HttpConnection in
theorem stopSlots_holds (hnested : CallsBack maximum nested) (slots : List Slot) (h : Owns maximum server history) :
    (stopSlots nested slots).Holds ((serverContract maximum).alone HttpServer)
      (fun _ server' history' => Owns maximum server' history' ∧ Kept server server' ∧
        ∀ slot ∈ slots, (server'.connections slot).active = false) server history := by
  induction slots generalizing server history with
  | nil => exact ⟨h, .refl _, nofun⟩
  | cons slot rest ih =>
    rw [stopSlots, holds_bind, holds_get]
    have hfirst : (hosted nested slot (HttpConnection.stop.run (server.connections slot))).Holds
        ((serverContract maximum).alone HttpServer) (fun _ server' history' =>
          Owns maximum server' history' ∧ Kept server server' ∧
            (server'.connections slot).active = false) server history := by
      cases hactive : (server.connections slot).active with
      | true =>
        have hlive : Live (server.connections slot)
            ⟨(server.connections slot).transport, (server.connections slot).active, false⟩ :=
          ⟨rfl, rfl, rfl, fun _ => h.holds slot hactive, fun _ => hactive⟩
        have hstop := terminate_holds' .serverStopped .serverStopped hlive
        exact hosted_holds (Q := fun _ c => c.active = false) hnested hstop rfl h rfl rfl
      | false =>
        have hstop : HttpConnection.stop.run (server.connections slot) =
            .done ((), server.connections slot) := by
          show (if ¬ (server.connections slot).active = true then pure () else _ :
            ConnectionMethod Unit) (server.connections slot) = _
          rw [if_pos (by rw [hactive]; exact nofun)]
          rfl
        have hsame : Same (server.connections slot) (server.connections slot) := ⟨rfl, rfl⟩
        rw [hstop, hosted, holds_bind, holds_modify, holds_pure]
        refine ⟨h.set_same hsame, kept_setConnection (.inl hsame), ?_⟩
        rw [setConnection_same]
        exact hactive
    refine hfirst.bind ?_
    rintro _ server₁ history₁ ⟨howns₁, hkept₁, hinactive₁⟩
    refine (ih howns₁).mono ?_
    rintro _ server₂ history₂ ⟨howns₂, hkept₂, hinactive₂⟩
    refine ⟨howns₂, hkept₁.trans hkept₂, fun other hother => ?_⟩
    rcases mem_cons.1 hother with rfl | hother
    · rcases hkept₂.slots other with ⟨-, hsame⟩ | ⟨hdown, -⟩
      · exact hsame.trans hinactive₁
      · exact hdown
    · exact hinactive₂ other hother

theorem stop_holds (depth : Nat) (h : Owns maximum server history) :
    (stop depth).Holds ((serverContract maximum).alone HttpServer)
      (fun _ server' history' => Owns maximum server' history' ∧
        ∀ slot, (server'.connections slot).active = false ∧
          (server'.connections slot).transport = none) server history := by
  unfold stop
  rw [holds_bind, holds_get]
  by_cases hlistener : server.listener = true
  · simp only [if_pos hlistener]
    refine (stopSlots_holds (pollResponsesCooperatively_holds depth) server.slots h).bind ?_
    rintro _ server₁ history₁ ⟨howns₁, hkept₁, hinactive₁⟩
    refine (releaseFinished_holds howns₁ (hkept₁.listener.trans hlistener)).mono ?_
    rintro _ server₂ history₂ ⟨howns₂, hreleased, hfree⟩
    refine ⟨howns₂, fun slot => ?_⟩
    by_cases hused : slot.val < maximum
    · have hinactive : (server₂.connections slot).active = false := by
        rw [hreleased.active]
        exact hinactive₁ slot (mem_slots (by rw [h.config]; exact hused))
      exact ⟨hinactive, (hfree slot).resolve_left (by rw [hinactive]; exact nofun)⟩
    · exact howns₂.idle slot (.inl (Nat.le_of_not_lt hused))
  · simp only [if_neg hlistener]
    have hinvalid : server.valid = false :=
      eq_false_iff.2 fun hvalid => hlistener (h.valid hvalid).1
    exact ⟨h, fun slot => h.idle slot (.inr hinvalid)⟩

end Methods

/-! ### Every schedule -/

inductive ServerAct
  | poll (nowMs : Nat)
  | pollResponses (nowMs : Nat)
  | stop

def ServerAct.perform (depth : Nat) : ServerAct → ServerMethod Unit
  | .poll nowMs => do
    let _ ← HttpServer.poll depth nowMs
  | .pollResponses nowMs => pollResponsesCooperatively depth nowMs
  | .stop => HttpServer.stop depth

/-- What the owner of a server does with it. -/
def serve (depth : Nat) : List ServerAct → ServerMethod Unit
  | [] => pure ()
  | next :: rest => do
    next.perform depth
    serve depth rest

section Schedules

variable {maximum : Nat} {server : HttpServer} {history : List ServerEvent}

theorem perform_holds (depth : Nat) (next : ServerAct) (h : Owns maximum server history) :
    (next.perform depth).Holds ((serverContract maximum).alone HttpServer)
      (fun _ server' history' => Owns maximum server' history' ∧ (next = .stop → ∀ slot,
        (server'.connections slot).active = false ∧ (server'.connections slot).transport = none))
      server history := by
  cases next with
  | poll nowMs => exact (poll_holds depth nowMs h).bind fun _ _ _ howns => ⟨howns, nofun⟩
  | pollResponses nowMs =>
    refine (pollResponsesCooperatively_holds depth nowMs server history h).mono ?_
    exact fun _ _ _ howns => ⟨howns.1, nofun⟩
  | stop => exact (stop_holds depth h).mono fun _ _ _ howns => ⟨howns.1, fun _ => howns.2⟩

theorem serve_holds (depth : Nat) (acts : List ServerAct) (h : Owns maximum server history) :
    (serve depth acts).Holds ((serverContract maximum).alone HttpServer)
      (fun _ server' history' => Owns maximum server' history' ∧ (acts.getLast? = some .stop →
        ∀ slot, (server'.connections slot).active = false ∧
          (server'.connections slot).transport = none)) server history := by
  induction acts generalizing server history with
  | nil => exact ⟨h, nofun⟩
  | cons next rest ih =>
    refine (perform_holds depth next h).bind ?_
    rintro _ server₁ history₁ ⟨howns₁, hstopped⟩
    cases rest with
    | nil =>
      refine ⟨howns₁, fun hlast => hstopped ?_⟩
      exact Option.some.inj hlast
    | cons second rest =>
      refine (ih howns₁).mono ?_
      rintro _ server₂ history₂ ⟨howns₂, hstopped₂⟩
      refine ⟨howns₂, fun hlast => hstopped₂ ?_⟩
      rwa [getLast?_cons_cons] at hlast

theorem owns_init (listener router : Bool) (config : HttpServerConfig) :
    Owns config.maximumConnections (init listener router config) [] where
  config := rfl
  valid hvalid := by
    obtain ⟨hlistener, -, hconfig⟩ := of_decide_eq_true hvalid
    exact ⟨hlistener, hconfig⟩
  idle _ _ := ⟨rfl, rfl⟩
  holds _ hactive := by cases hactive
  accepted P := by
    simp [accepts, releases, total, init, held]
  closed P := by
    simp [closes, releases, total, init, finished, held]
  polled _ := rfl

end Schedules

theorem foldl_snoc (past events : List ServerEvent) :
    events.foldl (fun history event => history ++ [event]) past = past ++ events := by
  induction events generalizing past with
  | nil => exact (append_nil _).symm
  | cons event rest ih => rw [foldl_cons, ih, append_assoc, singleton_append]

theorem length_slots (server : HttpServer) : server.slots.length ≤ server.config.maximumConnections := by
  by_cases hmany : httpMaximumConnections ≤ server.config.maximumConnections
  · refine (length_filter_le _ _).trans ?_
    exact hmany
  · have hcount : ∀ used ≤ httpMaximumConnections,
        ((List.finRange httpMaximumConnections).filter (·.val < used)).length ≤ used := by decide
    exact hcount _ (Nat.le_of_not_le hmany)

/-- A server that has come to the end of its schedule. -/
structure Settled (server : HttpServer) (stopped : Prop) (history : List ServerEvent) : Prop where
  accepted : ∀ P, accepts P history = releases P history + total (held P) server
  closed : ∀ P, closes P history = releases P history + total (finished P) server
  limit : server.activeConnections ≤ server.config.maximumConnections
  stopped : stopped → ∀ P, accepts P history = releases P history ∧ closes P history = releases P history

theorem Owns.settled {maximum : Nat} {server : HttpServer} {history : List ServerEvent} {stopped : Prop}
    (h : Owns maximum server history) (hstopped : stopped → ∀ slot,
      (server.connections slot).active = false ∧ (server.connections slot).transport = none) :
    Settled server stopped history where
  accepted := h.accepted
  closed := h.closed
  limit := by
    have hactive : server.activeConnections ≤ server.slots.length := countP_le_length
    exact hactive.trans server.length_slots
  stopped hstop P := by
    have hheld : total (held P) server = 0 := by
      refine Finset.sum_eq_zero fun slot _ => ?_
      rw [held, (hstopped hstop slot).2]
    have hfinished : total (finished P) server = 0 := by
      refine Finset.sum_eq_zero fun slot _ => ?_
      rw [finished, held, (hstopped hstop slot).2, ite_self]
    rw [h.accepted, h.closed, hheld, hfinished]
    exact ⟨rfl, rfl⟩

/-- At every point of every schedule, however handlers call back, the server owns each transport it
has accepted once: it is released at most once, after it was closed, and at the latest when the
server is stopped. -/
theorem server_owns (listener router : Bool) (config : HttpServerConfig) (depth : Nat)
    (acts : List ServerAct) {events : List ServerEvent} {rest : Program serverSignature (Unit × HttpServer)}
    (hrun : Steps (anyEnv serverSignature) ((serve depth acts).run (init listener router config)).alone ()
      events rest ()) :
    Safe config.maximumConnections events ∧
      ∀ server, rest = .done ((), server) → Settled server (acts.getLast? = some .stop) events := by
  have hholds := (Program.holds_alone _ _).2
    (serve_holds depth acts (owns_init listener router config))
  have hlast := (hrun.monitored hholds).2
  rw [foldl_snoc, nil_append] at hlast
  cases rest with
  | done reply =>
    refine ⟨hlast.1.safe, ?_⟩
    rintro server hserver
    cases hserver
    exact hlast.1.settled hlast.2
  | call op next => exact ⟨hlast.1, nofun⟩

/-- One client, whose request is answered, and handlers that call back once. -/
def oneClient : Handler serverSignature Nat
  | .accept, 0 => ((.accepted, some 4), 1)
  | .accept, n => ((.wouldBlock, none), n)
  | .release _, n => ((), n)
  | .close _, n => ((), n)
  | .http _ op, n =>
    let reply := HttpConnection.refusingSink HttpConnection.samplePut op (n = 2)
    (reply.1, if reply.2 then 2 else n)
  | .nested _ _, n => ([7], n)
  | .enter _, n => ((), n)
  | .leave _, n => ((), n)

def sampleSchedule : List ServerAct := [.poll 1, .poll 2, .pollResponses 3, .stop]

def sampleProgram := ((serve 3 sampleSchedule).run (init true true {})).alone

def sampleEvents : List ServerEvent := (sampleProgram.run oneClient 0).1

theorem sampleProgram_owned :
    accepts (fun _ => true) sampleEvents = 1 ∧ releases (fun _ => true) sampleEvents = 1 ∧
      Safe httpMaximumConnections sampleEvents ∧
      ∀ server, (.done (sampleProgram.run oneClient 0).2.1 : Program serverSignature
        (Unit × HttpServer)) = .done ((), server) →
          Settled server (sampleSchedule.getLast? = some .stop) sampleEvents :=
  ⟨by decide +kernel, by decide +kernel,
    server_owns true true {} 3 sampleSchedule (run_anyRun oneClient sampleProgram 0)⟩

end HttpServer

end Bmx.Remote
