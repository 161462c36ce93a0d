import Fly.Network.ReactorStreams

/-!
# Polling the connections (`tcp_connection_manager.cpp`)

`poll` goes through the notifications of the multiplexer.  A readable connection is read until the kernel
has no more or a bound is reached, and what was read becomes a data event; if nothing was read the connection
is given up with a disconnect event.  A connection with a hang-up or an error is read once more in the same
way, so that what has arrived is delivered first, and is then given up with an error event.

The kernel hands over what is queued for a connection before it reports an end; bytes may arrive at any
moment, also between two calls of `recv`.

* `Sock` — a connection in the kernel; `PollWorld`, `PollAct`, `step` — the thread among the arriving bytes;
* `Polled` — of every connection: what was delivered, what is in hand and what is queued are, in this order,
  what has arrived; `polled_step` — every step keeps it;
* `Drains` — no more is queued than a round reads, and nothing arrives behind the last look at a connection;
* `loss_reported_last` — the loss of a connection is reported behind all that has arrived;
* `queued_bytes_lost` — with more than that queued at a hang-up, the rest is lost;
* `disconnect_only_if_ended` — a loss that is reported is one, if no readable notification is spurious.
-/

namespace Fly.Network.Poll

open Fly.Lib Fly.Storage List Function

/-- What one call of `drain_socket` reads at most. -/
def drainLimit : ℕ := 65536

inductive SockEnd where
  | fin
  | reset (code : ℤ)
  deriving DecidableEq

/-- A connection in the kernel: what is queued for reading, and the end that was seen behind it. -/
structure Sock where
  queue : Bytes
  ended : Option SockEnd

structure IoEvent where
  readable : Bool
  error : Bool
  hangup : Bool
  deriving DecidableEq

/-- Where the thread is: between two notifications, in the loop of `drain_socket`, or behind it.  `lost` is
the error code of a connection with a hang-up or an error; `got` is what was read in the loop. -/
inductive Pc where
  | between
  | draining (conn : ConnId) (lost : Option ℤ) (got : Bytes)
  | drained (conn : ConnId) (lost : Option ℤ) (got : Bytes)
  deriving DecidableEq

/-- `log` has every event with what had arrived for its connection when it was emitted. -/
structure PollWorld where
  socks : ConnId → Sock
  registered : ConnId → Bool
  arrived : ConnId → Bytes
  pc : Pc
  log : List (TransportEvent × Bytes)

inductive PollAct where
  | arrive (conn : ConnId) (bytes : Bytes)
  | finish (conn : ConnId) (how : SockEnd)
  | accept (conn : ConnId)
  | notify (conn : ConnId) (ev : IoEvent)
  | recv (size : ℕ)
  | emit
  | close (conn : ConnId)
  deriving DecidableEq

namespace PollWorld

variable (w : PollWorld) (conn : ConnId) (lost : Option ℤ) (got : Bytes)

def init : PollWorld where
  socks _ := ⟨[], none⟩
  registered _ := false
  arrived _ := []
  pc := .between
  log := []

def setSock (s : Sock) : PollWorld := { w with socks := update w.socks conn s }

def unregister : PollWorld := { w with registered := update w.registered conn false }

def push (e : TransportEvent) : PollWorld := { w with log := w.log ++ [(e, w.arrived e.conn)] }

def events : List TransportEvent := w.log.map Prod.fst

/-- A notification is taken up.  With a hang-up or an error `getsockopt` fetches the error of the connection,
and the kernel forgets it. -/
def takeUp (ev : IoEvent) : PollWorld :=
  if w.registered conn = false then w
  else if ev.error || ev.hangup then
    let s := w.socks conn
    match s.ended with
    | some (.reset code) =>
      { w.setSock conn { s with ended := some .fin } with pc := .draining conn (some code) [] }
    | _ => { w with pc := .draining conn (some 0) [] }
  else if ev.readable then { w with pc := .draining conn none [] }
  else w

/-- One round of the loop of `drain_socket`: `size` is what the kernel is ready to hand over at once. -/
def recvRound (size : ℕ) : PollWorld :=
  let s := w.socks conn
  if got.length < drainLimit ∧ s.queue ≠ [] then
    let n := min (max size 1) (drainLimit - got.length)
    { w.setSock conn { s with queue := s.queue.drop n } with
      pc := .draining conn lost (got ++ s.queue.take n) }
  else { w with pc := .drained conn lost got }

/-- Behind the loop. -/
def emitEvents : PollWorld :=
  let w := { w with pc := .between }
  match lost with
  | some code =>
    ((if got = [] then w else w.push (.data conn got)).push (.error conn code)).unregister conn
  | none =>
    if got = [] then (w.push (.disconnect conn)).unregister conn else w.push (.data conn got)

end PollWorld

open PollWorld

def step (w : PollWorld) : PollAct → Option PollWorld
  | .arrive conn bytes =>
    if (w.socks conn).ended = none then
      some { w.setSock conn { w.socks conn with queue := (w.socks conn).queue ++ bytes } with
        arrived := update w.arrived conn (w.arrived conn ++ bytes) }
    else none
  | .finish conn how =>
    if (w.socks conn).ended = none then some (w.setSock conn { w.socks conn with ended := some how })
    else none
  | .accept conn =>
    -- a new connection has a new number
    if w.pc = .between ∧ ∀ e ∈ w.events, e.conn ≠ conn then
      some ({ w with registered := update w.registered conn true }.push (.connect conn))
    else none
  | .notify conn ev => if w.pc = .between then some (w.takeUp conn ev) else none
  | .recv size =>
    match w.pc with
    | .draining conn lost got => some (w.recvRound conn lost got size)
    | _ => none
  | .emit =>
    match w.pc with
    | .drained conn lost got => some (w.emitEvents conn lost got)
    | _ => none
  | .close conn => some (w.unregister conn)

/-- What one step does. -/
inductive Steps (w : PollWorld) : PollAct → PollWorld → Prop where
  | arrive (conn : ConnId) (bytes : Bytes) : Steps w (.arrive conn bytes)
      { w.setSock conn { w.socks conn with queue := (w.socks conn).queue ++ bytes } with
        arrived := update w.arrived conn (w.arrived conn ++ bytes) }
  | finish (conn : ConnId) (how : SockEnd) :
      Steps w (.finish conn how) (w.setSock conn { w.socks conn with ended := some how })
  | accept (conn : ConnId) : Steps w (.accept conn)
      ({ w with registered := update w.registered conn true }.push (.connect conn))
  | notify (hpc : w.pc = .between) (conn : ConnId) (ev : IoEvent) :
      Steps w (.notify conn ev) (w.takeUp conn ev)
  | recv {conn : ConnId} {lost : Option ℤ} {got : Bytes} (hpc : w.pc = .draining conn lost got) (size : ℕ) :
      Steps w (.recv size) (w.recvRound conn lost got size)
  | emit {conn : ConnId} {lost : Option ℤ} {got : Bytes} (hpc : w.pc = .drained conn lost got) :
      Steps w .emit (w.emitEvents conn lost got)
  | close (conn : ConnId) : Steps w (.close conn) (w.unregister conn)

theorem steps_of_step {w w' : PollWorld} {a : PollAct} (h : step w a = some w') : Steps w a w' := by
  cases a with
  | arrive | finish | accept | notify =>
    obtain ⟨hpc, h⟩ := Option.ite_none_right_eq_some.mp h
    cases h
    constructor <;> exact hpc
  | recv | emit =>
    simp only [step] at h
    split at h
    · next hpc =>
      cases h
      constructor
      exact hpc
    · cases h
  | close =>
    cases h
    constructor

/-! ### Nothing is lost on the way -/

/-- What the thread has read of a connection and not yet delivered. -/
def Pc.inHand (c : ConnId) : Pc → Bytes
  | .between => []
  | .draining conn _ got | .drained conn _ got => if conn = c then got else []

/-- What was delivered, what is in hand and what is queued is what has arrived. -/
def Polled (w : PollWorld) (c : ConnId) : Prop :=
  received c w.events ++ (w.pc.inHand c ++ (w.socks c).queue) = w.arrived c

section Steps

variable {w w' : PollWorld} {c conn : ConnId} {lost : Option ℤ} {got : Bytes}

theorem queue_setSock (conn : ConnId) (s : Sock) (hs : s.queue = (w.socks conn).queue) :
    ((w.setSock conn s).socks c).queue = (w.socks c).queue := by
  by_cases hc : c = conn
  · subst hc
    show (update w.socks c s c).queue = _
    rw [update_self, hs]
  · show (update w.socks conn s c).queue = _
    rw [update_of_ne hc]

theorem events_push (e : TransportEvent) : (w.push e).events = w.events ++ [e] := by
  rw [PollWorld.events, PollWorld.push, map_append]
  rfl

theorem received_push {e : TransportEvent} (h : e.dataOn c = none) :
    received c (w.push e).events = received c w.events := by
  rw [events_push, received_append, received_of_dataOn h, append_nil]

theorem polled_arrive (h : Polled w c) (bytes : Bytes) :
    Polled ({ w.setSock conn { w.socks conn with queue := (w.socks conn).queue ++ bytes } with
      arrived := update w.arrived conn (w.arrived conn ++ bytes) } : PollWorld) c := by
  by_cases hc : c = conn
  · subst hc
    show received c w.events ++ (w.pc.inHand c ++
      (update w.socks c { w.socks c with queue := (w.socks c).queue ++ bytes } c).queue) =
        update w.arrived c (w.arrived c ++ bytes) c
    rw [update_self, update_self, ← h]
    simp only [append_assoc]
  · show received c w.events ++ (w.pc.inHand c ++
      (update w.socks conn { w.socks conn with queue := (w.socks conn).queue ++ bytes } c).queue) =
        update w.arrived conn (w.arrived conn ++ bytes) c
    rw [update_of_ne hc, update_of_ne hc]
    exact h

/-- The start of a notification changes nothing that is queued, and there is nothing in hand yet. -/
theorem takeUp_spec {ev : IoEvent} (hw' : w.takeUp conn ev = w') (hpc : w.pc = .between) :
    w'.log = w.log ∧ w'.arrived = w.arrived ∧ w'.registered = w.registered ∧
      (∀ c, (w'.socks c).queue = (w.socks c).queue) ∧
      (w'.pc = .between ∨ ∃ lost, w'.pc = .draining conn lost [] ∧
        (lost.isSome → w.registered conn = true ∧ (ev.error || ev.hangup) = true)) := by
  subst hw'
  unfold takeUp
  split
  · exact ⟨rfl, rfl, rfl, fun _ => rfl, .inl hpc⟩
  rename_i hreg
  split
  · rename_i hflags
    have hwhy : w.registered conn = true ∧ (ev.error || ev.hangup) = true := ⟨by simpa using hreg, hflags⟩
    dsimp only
    split
    · rename_i code _
      exact ⟨rfl, rfl, rfl, fun c => queue_setSock conn _ rfl, .inr ⟨some code, rfl, fun _ => hwhy⟩⟩
    · exact ⟨rfl, rfl, rfl, fun _ => rfl, .inr ⟨some 0, rfl, fun _ => hwhy⟩⟩
  · split
    · exact ⟨rfl, rfl, rfl, fun _ => rfl, .inr ⟨none, rfl, nofun⟩⟩
    · exact ⟨rfl, rfl, rfl, fun _ => rfl, .inl hpc⟩

/-- A round of the loop moves bytes from the queue into the hand, or finds that it is over. -/
theorem recvRound_spec {size : ℕ} (hw' : w.recvRound conn lost got size = w') :
    w'.log = w.log ∧ w'.arrived = w.arrived ∧ w'.registered = w.registered ∧
      (∀ c, c ≠ conn → w'.socks c = w.socks c) ∧
      ((∃ n, w'.pc = .draining conn lost (got ++ (w.socks conn).queue.take n) ∧
          (w'.socks conn).queue = (w.socks conn).queue.drop n) ∨
        w'.pc = .drained conn lost got ∧ w'.socks = w.socks ∧
          (drainLimit ≤ got.length ∨ (w.socks conn).queue = [])) := by
  subst hw'
  unfold recvRound
  dsimp only
  split
  · refine ⟨rfl, rfl, rfl, fun c hc => update_of_ne hc _ _, .inl ⟨_, rfl, ?_⟩⟩
    show (update w.socks conn _ conn).queue = _
    rw [update_self]
  · rename_i hstop
    refine ⟨rfl, rfl, rfl, fun c _ => rfl, .inr ⟨rfl, rfl, ?_⟩⟩
    by_contra hnot
    push Not at hnot
    exact hstop ⟨hnot.1, hnot.2⟩

theorem polled_recv (h : Polled w c) (hpc : w.pc = .draining conn lost got) {size : ℕ}
    (hw' : w.recvRound conn lost got size = w') : Polled w' c := by
  obtain ⟨hlog, harrived, -, hother, hmoved⟩ := recvRound_spec hw'
  unfold Polled at h ⊢
  rw [PollWorld.events, hlog, harrived]
  rw [hpc] at h
  rcases hmoved with ⟨n, hpc', hqueue⟩ | ⟨hpc', hsocks, -⟩
  · rw [hpc']
    by_cases hc : c = conn
    · subst hc
      rw [hqueue]
      simp only [Pc.inHand, if_pos] at h ⊢
      rw [append_assoc, take_append_drop]
      exact h
    · have hc' : ¬conn = c := fun h => hc h.symm
      rw [hother c hc]
      simp only [Pc.inHand, if_neg hc'] at h ⊢
      exact h
  · rw [hpc', hsocks]
    exact h

/-- The events with which a round ends. -/
def emitted (conn : ConnId) (lost : Option ℤ) (got : Bytes) : List TransportEvent :=
  (if got = [] then [] else [.data conn got]) ++
    lost.elim (if got = [] then [.disconnect conn] else []) fun code => [.error conn code]

theorem emitEvents_spec (hw' : w.emitEvents conn lost got = w') :
    w'.pc = .between ∧ w'.socks = w.socks ∧ w'.arrived = w.arrived ∧
      w'.log = w.log ++ (emitted conn lost got).map (fun e => (e, w.arrived conn)) ∧
      w'.registered = if lost.isSome ∨ got = [] then update w.registered conn false else w.registered := by
  subst hw'
  unfold emitEvents emitted
  cases lost with
  | some code | none =>
    dsimp only
    split <;> simp [push, unregister, TransportEvent.conn, *]

/-- What was read becomes a data event, whatever comes behind it. -/
theorem received_emitted : received c (emitted conn lost got) = if conn = c then got else [] := by
  have hlast : received c (lost.elim (if got = [] then [.disconnect conn] else [])
      fun code => [.error conn code]) = [] := by
    cases lost with
    | some code => rfl
    | none =>
      dsimp only [Option.elim]
      split <;> rfl
  rw [emitted, received_append, hlast, append_nil]
  by_cases hgot : got = []
  · subst hgot
    simp [received]
  rw [if_neg hgot]
  by_cases hc : conn = c
  · rw [hc, received_data, if_pos rfl]
  · rw [received_of_dataOn (dataOn_of_ne (e := .data conn got) hc), if_neg hc]

theorem polled_emit (h : Polled w c) (hpc : w.pc = .drained conn lost got)
    (hw' : w.emitEvents conn lost got = w') : Polled w' c := by
  obtain ⟨hbetween, hsocks, harrived, hlog, -⟩ := emitEvents_spec hw'
  have hevents : w'.events = w.events ++ emitted conn lost got := by
    simp [PollWorld.events, hlog, comp_def]
  unfold Polled at h ⊢
  rw [hevents, received_append, received_emitted, hbetween, hsocks, harrived, append_assoc]
  rw [hpc] at h
  exact h

/-- **Every step keeps the bytes of every connection together.** -/
theorem polled_step {a : PollAct} (h : Polled w c) (hstep : step w a = some w') : Polled w' c := by
  cases steps_of_step hstep with
  | arrive conn bytes => exact polled_arrive h bytes
  | finish conn how =>
    show received c w.events ++ (w.pc.inHand c ++ ((w.setSock conn _).socks c).queue) = w.arrived c
    rw [queue_setSock conn { w.socks conn with ended := some how } rfl]
    exact h
  | accept conn =>
    unfold Polled
    rw [received_push (w := { w with registered := update w.registered conn true }) rfl]
    exact h
  | notify hpc conn ev =>
    obtain ⟨hlog, harrived, -, hqueue, hpc'⟩ := takeUp_spec rfl hpc
    unfold Polled at h ⊢
    have hhand : (w.takeUp conn ev).pc.inHand c = [] := by
      rcases hpc' with hpc' | ⟨lost, hpc', -⟩
      · rw [hpc']
        rfl
      · rw [hpc', Pc.inHand]
        split <;> rfl
    rw [hpc] at h
    rw [PollWorld.events, hlog, harrived, hqueue c, hhand]
    exact h
  | recv hpc size => exact polled_recv h hpc rfl
  | emit hpc => exact polled_emit h hpc rfl
  | close conn => exact h

end Steps

/-! ### The report of a loss -/

/-- The connection is about to be given up: it had a hang-up or an error, or nothing was found to read. -/
def Pc.Leaving (c : ConnId) : Pc → Prop
  | .between => False
  | .draining conn lost _ => conn = c ∧ lost.isSome
  | .drained conn lost got => conn = c ∧ (lost.isSome ∨ got = [])

instance (c : ConnId) (pc : Pc) : Decidable (pc.Leaving c) := by
  cases pc <;> (dsimp only [Pc.Leaving]; infer_instance)

/-- The condition on a step: a hang-up or an error is taken up with no more queued than one call of
`drain_socket` reads, and nothing arrives for a connection that is about to be given up. -/
def Drains (w : PollWorld) : PollAct → Prop
  | .notify conn ev =>
    w.registered conn = true → (ev.error || ev.hangup) = true → (w.socks conn).queue.length ≤ drainLimit
  | .arrive conn _ => ¬w.pc.Leaving conn
  | _ => True

instance (w : PollWorld) (a : PollAct) : Decidable (Drains w a) := by
  cases a <;> (dsimp only [Drains]; infer_instance)

/-- The event that reports the loss of a connection. -/
def Final : TransportEvent → Prop
  | .disconnect _ => True
  | .error _ _ => True
  | _ => False

/-- In front of the report of a loss stands all that had arrived. -/
def LossLast (w : PollWorld) : Prop :=
  ∀ pre e stamp post, w.log = pre ++ (e, stamp) :: post → Final e →
    received e.conn (pre.map Prod.fst) = stamp

/-- What the loop still has to read is no more than it can read, and behind it nothing is left. -/
def Pc.Leftover (socks : ConnId → Sock) : Pc → Prop
  | .between => True
  | .draining conn lost got => lost.isSome → got.length + (socks conn).queue.length ≤ drainLimit
  | .drained conn lost got => lost.isSome ∨ got = [] → (socks conn).queue = []

structure Inv (w : PollWorld) : Prop where
  polled : ∀ c, Polled w c
  leftover : w.pc.Leftover w.socks
  lossLast : LossLast w

section Loss

variable {w w' : PollWorld} {conn : ConnId} {lost : Option ℤ} {got bytes : Bytes} {a : PollAct}

theorem inv_init : Inv .init := by
  refine ⟨fun c => rfl, trivial, fun pre e stamp post h => ?_⟩
  exact absurd h (by simp [init])

theorem lossLast_of_log (h : LossLast w) (hlog : w'.log = w.log) : LossLast w' := by
  intro pre e stamp post hsplit
  rw [hlog] at hsplit
  exact h pre e stamp post hsplit

/-- One more event: if it reports a loss, all that had arrived must have been delivered. -/
theorem LossLast.push (h : LossLast w) {e : TransportEvent}
    (hfinal : Final e → received e.conn w.events = w.arrived e.conn) : LossLast (w.push e) := by
  intro pre e' stamp post hsplit hfinal'
  rcases concat_eq_append_cons_iff.mp hsplit with ⟨rfl, heq, -⟩ | ⟨post', -, hlog⟩
  · cases heq
    exact hfinal hfinal'
  · exact h pre e' stamp post' hlog hfinal'

theorem lossLast_emit (h : Inv w)
    (hpc : w.pc = .drained conn lost got) : LossLast (w.emitEvents conn lost got) := by
  have hpolled := h.polled conn
  unfold Polled at hpolled
  rw [hpc, Pc.inHand, if_pos rfl] at hpolled
  have hleft := h.leftover
  rw [hpc] at hleft
  have hbase : LossLast ({ w with pc := .between } : PollWorld) := lossLast_of_log h.lossLast rfl
  unfold emitEvents
  cases lost with
  | some code =>
    rw [hleft (.inl rfl), append_nil] at hpolled
    dsimp only
    by_cases hgot : got = []
    · rw [if_pos hgot]
      refine lossLast_of_log (hbase.push (e := .error conn code) fun _ => ?_) rfl
      rw [hgot, append_nil] at hpolled
      exact hpolled
    · rw [if_neg hgot]
      refine lossLast_of_log (LossLast.push (hbase.push (e := .data conn got) fun h => h.elim)
        (e := .error conn code) fun _ => ?_) rfl
      rw [events_push, received_append]
      show received conn w.events ++ received conn [.data conn got] = w.arrived conn
      rw [received_data]
      exact hpolled
  | none =>
    dsimp only
    by_cases hgot : got = []
    · rw [if_pos hgot]
      refine lossLast_of_log (hbase.push (e := .disconnect conn) fun _ => ?_) rfl
      rw [hleft (.inr hgot), hgot, append_nil, append_nil] at hpolled
      exact hpolled
    · rw [if_neg hgot]
      exact hbase.push (e := .data conn got) fun h => h.elim

/-- Only the queue of the connection in hand matters. -/
theorem Pc.Leftover.of_queue {pc : Pc} {socks socks' : ConnId → Sock} (h : pc.Leftover socks)
    (hqueue : ∀ conn, pc.Leaving conn → (socks' conn).queue = (socks conn).queue) : pc.Leftover socks' := by
  cases pc with
  | between => trivial
  | draining conn lost got | drained conn lost got =>
    intro hlost
    rw [hqueue conn ⟨rfl, hlost⟩]
    exact h hlost

theorem leftover_recv (h : w.pc.Leftover w.socks) (hpc : w.pc = .draining conn lost got) {size : ℕ}
    (hw' : w.recvRound conn lost got size = w') : w'.pc.Leftover w'.socks := by
  rw [hpc] at h
  obtain ⟨-, -, -, -, ⟨n, hpc', hqueue⟩ | ⟨hpc', hsocks, hover⟩⟩ := recvRound_spec hw'
  · rw [hpc']
    intro hlost
    have hle := h hlost
    rw [hqueue, length_append, length_take, length_drop]
    omega
  · rw [hpc', hsocks]
    intro hleaving
    rcases hover with hfull | hnil
    · -- the bound was reached: with a hang-up that was all, and otherwise something was read
      rcases hleaving with hlost | hgot
      · have hle := h hlost
        exact eq_nil_of_length_eq_zero (by omega)
      · rw [hgot] at hfull
        exact absurd hfull (by decide)
    · exact hnil

theorem leftover_step (h : w.pc.Leftover w.socks) (hdrains : Drains w a)
    (hstep : step w a = some w') : w'.pc.Leftover w'.socks := by
  cases steps_of_step hstep with
  | arrive conn bytes =>
    refine h.of_queue fun d hd => ?_
    have hne : d ≠ conn := by
      intro hdc
      rw [hdc] at hd
      exact hdrains hd
    show (update w.socks conn _ d).queue = _
    rw [update_of_ne hne]
  | finish conn how =>
    exact h.of_queue fun d _ => queue_setSock conn { w.socks conn with ended := some how } rfl
  | accept conn | close conn => exact h
  | notify hpc conn ev =>
    obtain ⟨-, -, -, hqueue, hpc' | ⟨lost, hpc', hwhy⟩⟩ := takeUp_spec rfl hpc
    · rw [hpc']
      trivial
    rw [hpc']
    intro hlost
    obtain ⟨hreg, hflags⟩ := hwhy hlost
    rw [hqueue conn, length_nil, Nat.zero_add]
    exact hdrains hreg hflags
  | recv hpc size => exact leftover_recv h hpc rfl
  | emit hpc =>
    rw [(emitEvents_spec rfl).1]
    trivial

theorem lossLast_step (h : Inv w) (hstep : step w a = some w') : LossLast w' := by
  cases steps_of_step hstep with
  | arrive conn bytes | finish conn how | close conn => exact lossLast_of_log h.lossLast rfl
  | accept conn => exact (lossLast_of_log h.lossLast rfl).push fun hfinal => hfinal.elim
  | notify hpc conn ev => exact lossLast_of_log h.lossLast (takeUp_spec rfl hpc).1
  | recv hpc size => exact lossLast_of_log h.lossLast (recvRound_spec rfl).1
  | emit hpc => exact lossLast_emit h hpc

/-- **The loss of a connection is reported behind all that has arrived**, in every run whose steps all meet
the condition: in front of a disconnect or error event stand data events with exactly the bytes that the
kernel had taken for the connection, in order, and nothing is left queued. -/
theorem loss_reported_last {acts : List PollAct}
    (hdrains : ∀ pre a post t, acts = pre ++ a :: post → run step .init pre = some t → Drains t a)
    (hrun : run step .init acts = some w) : LossLast w := by
  have hinv : Inv w := by
    refine run_safe (I := Inv) (fun t a t' hinv hd hstep => ?_) inv_init hdrains hrun
    exact ⟨fun c => polled_step (hinv.polled c) hstep, leftover_step hinv.leftover hd hstep,
      lossLast_step hinv hstep⟩
  exact hinv.lossLast

/-- Two pieces arrive; the hang-up is taken up with the second still queued. -/
def hangupActs : List PollAct :=
  [.accept 0, .arrive 0 [1, 2], .notify 0 ⟨true, false, false⟩, .recv 8, .recv 8, .emit, .arrive 0 [3, 4, 5],
    .finish 0 (.reset 104), .notify 0 ⟨true, true, true⟩, .recv 2, .recv 2, .recv 2, .emit]

theorem loss_reported_last_hangup : ∃ w, run step init hangupActs = some w ∧
      w.events = [.connect 0, .data 0 [1, 2], .data 0 [3, 4, 5], .error 0 104] ∧
      received 0 [.connect 0, .data 0 [1, 2], .data 0 [3, 4, 5]] = w.arrived 0 := by
  obtain ⟨w, hrun, hlog, harrived⟩ := exists_of_decide (o := run step init hangupActs)
    (p := fun w => w.log = [(.connect 0, []), (.data 0 [1, 2], [1, 2]), (.data 0 [3, 4, 5], [1, 2, 3, 4, 5]),
      (.error 0 104, [1, 2, 3, 4, 5])] ∧ w.arrived 0 = [1, 2, 3, 4, 5]) (by decide +kernel)
  have hchecks : checks step (fun w a => decide (Drains w a)) init hangupActs = true := by
    decide +kernel
  have hlast := loss_reported_last
    (fun pre a post t hsplit ht => of_decide_eq_true (safe_of_checks hchecks hsplit ht)) hrun
  refine ⟨w, hrun, by rw [PollWorld.events, hlog]; rfl, ?_⟩
  rw [harrived]
  exact hlast [(.connect 0, []), (.data 0 [1, 2], [1, 2]), (.data 0 [3, 4, 5], [1, 2, 3, 4, 5])]
    (.error 0 104) [1, 2, 3, 4, 5] [] hlog trivial

/-! ### What is lost -/

/-- A hang-up that is taken up with more queued than one call of `drain_socket` reads. -/
def overflowActs (bytes : Bytes) : List PollAct :=
  [.accept 0, .arrive 0 bytes, .finish 0 .fin, .notify 0 ⟨true, false, true⟩, .recv drainLimit,
    .recv drainLimit, .emit]

theorem log_overflow (h : drainLimit < bytes.length) :
    (run step PollWorld.init (overflowActs bytes)).map PollWorld.log =
      some [(.connect 0, []), (.data 0 (bytes.take drainLimit), bytes), (.error 0 0, bytes)] := by
  have hne : bytes ≠ [] := by
    rintro rfl
    exact absurd h (by decide)
  have hpos : 0 < drainLimit := by decide
  have hone : max drainLimit 1 = drainLimit := by decide
  have htake : bytes.take drainLimit ≠ [] := by
    intro hnil
    have hlength := congrArg length hnil
    rw [length_take, length_nil] at hlength
    omega
  have hlong : ¬bytes.length < drainLimit := by omega
  simp [overflowActs, run, step, init, PollWorld.events, push, setSock, takeUp, recvRound, emitEvents,
    unregister, TransportEvent.conn, hne, hpos, hone, htake, hlong]

theorem not_lossLast_overflow (h : drainLimit < bytes.length) :
    ∃ w, run step init (overflowActs bytes) = some w ∧ ¬LossLast w := by
  obtain ⟨w, hrun, hlog⟩ := Option.map_eq_some_iff.mp (log_overflow h)
  refine ⟨w, hrun, fun hlast => ?_⟩
  have hreceived : received 0 ([.connect 0] ++ [.data 0 (bytes.take drainLimit)]) = bytes :=
    hlast [(.connect 0, []), (.data 0 (bytes.take drainLimit), bytes)] (.error 0 0) bytes [] hlog trivial
  rw [received_append, received_of_dataOn rfl, received_data, nil_append] at hreceived
  have hlength := congrArg length hreceived
  rw [length_take] at hlength
  omega

/-- **Queued bytes are lost**: with one byte more than one call reads, the error event comes behind a data
event that lacks the last byte. -/
theorem queued_bytes_lost : ∃ w, run step .init (overflowActs (replicate 65537 7)) = some w ∧ ¬LossLast w :=
  not_lossLast_overflow (by rw [length_replicate]; decide)

end Loss

/-! ### Losses that are none -/

/-- In this step `recv` returns the end of file, or an error other than would-block, on the connection. -/
def recvEnds (c : ConnId) (w : PollWorld) : PollAct → Bool
  | .recv _ =>
    match w.pc with
    | .draining conn _ got =>
      conn == c && got.length < drainLimit && (w.socks c).queue.isEmpty && (w.socks c).ended.isSome
    | _ => false
  | _ => false

/-- In this step the first `recv` behind a readable notification returns would-block. -/
def spurious (w : PollWorld) : PollAct → Bool
  | .recv _ =>
    match w.pc with
    | .draining conn none [] => (w.socks conn).queue.isEmpty && (w.socks conn).ended.isNone
    | _ => false
  | _ => false

/-- `recv` has returned the end of file or an error on the connection. -/
def RecvEnded (acts : List PollAct) (c : ConnId) : Prop :=
  ∃ pre a post t, acts = pre ++ a :: post ∧ run step .init pre = some t ∧ recvEnds c t a = true

/-- The connection is neither reported lost nor about to be. -/
structure Quiet (c : ConnId) (w : PollWorld) : Prop where
  events : .disconnect c ∉ w.events
  pc : w.pc ≠ .drained c none []

section Quiet

variable {w w' : PollWorld} {acts : List PollAct} {a : PollAct} {c conn : ConnId} {lost : Option ℤ}
  {got : Bytes}

/-- A call of `recv` that ends the loop with nothing read has seen the end or was not due. -/
theorem recvRound_ne_drained (hpc : w.pc = .draining conn lost got) {size : ℕ}
    (hsafe : spurious w (.recv size) = false ∧ recvEnds c w (.recv size) = false)
    (hw' : w.recvRound conn lost got size = w') : w'.pc ≠ .drained c none [] := by
  obtain ⟨-, -, -, -, ⟨n, hpc', -⟩ | ⟨hpc', -, hover⟩⟩ := recvRound_spec hw'
  · rw [hpc']
    exact Pc.noConfusion
  · rw [hpc']
    rintro ⟨⟩
    have hqueue := hover.resolve_left (by decide)
    cases hended : (w.socks c).ended with
    | none => simp [spurious, hpc, hqueue, hended] at hsafe
    | some how => simp [recvEnds, hpc, hqueue, hended, drainLimit] at hsafe

theorem Quiet.step (h : Quiet c w) (hsafe : spurious w a = false ∧ recvEnds c w a = false)
    (hstep : step w a = some w') : Quiet c w' := by
  have hevents := h.events
  cases steps_of_step hstep with
  | arrive conn bytes | finish conn how | close conn => exact ⟨h.events, h.pc⟩
  | accept conn => exact ⟨by simpa [PollWorld.events, PollWorld.push] using hevents, h.pc⟩
  | notify hpc conn ev =>
    obtain ⟨hlog, -, -, -, hpc'⟩ := takeUp_spec rfl hpc
    refine ⟨by rwa [PollWorld.events, hlog], ?_⟩
    rcases hpc' with hpc' | ⟨lost, hpc', -⟩ <;> rw [hpc'] <;> exact Pc.noConfusion
  | recv hpc size =>
    refine ⟨?_, recvRound_ne_drained hpc hsafe rfl⟩
    rwa [PollWorld.events, (recvRound_spec rfl).1]
  | @emit conn lost got hpc =>
    obtain ⟨hpc', -, -, hlog, -⟩ := emitEvents_spec (show w.emitEvents conn lost got = _ from rfl)
    refine ⟨?_, hpc' ▸ Pc.noConfusion⟩
    have hne : lost = none → got = [] → c ≠ conn := by
      rintro rfl rfl rfl
      exact h.pc hpc
    rw [PollWorld.events, hlog, map_append, mem_append]
    rintro (hold | hnew)
    · exact hevents hold
    · cases lost with
      | some code => simp [emitted] at hnew
      | none =>
        obtain ⟨hgot, hc⟩ : got = [] ∧ c = conn := by simpa [emitted] using hnew
        exact hne rfl hgot hc

/-- An accepted connection is registered, and not about to be given up. -/
structure Kept (c : ConnId) (hist : List PollAct) (w : PollWorld) : Prop where
  registered : .accept c ∈ hist → w.registered c = true
  leaving : ¬w.pc.Leaving c

theorem Kept.step (h : Kept c acts w) (hsafe : spurious w a = false ∧ recvEnds c w a = false)
    (hflags : ∀ ev, a = .notify c ev → (ev.error || ev.hangup) = false) (hclose : a ≠ .close c)
    (hstep : step w a = some w') : Kept c (acts ++ [a]) w' := by
  have hregistered : a ≠ .accept c → .accept c ∈ acts ++ [a] → w.registered c = true := by
    intro hne hin
    refine h.registered ((mem_append.mp hin).resolve_right fun hin => hne (mem_singleton.mp hin).symm)
  cases steps_of_step hstep with
  | arrive conn bytes | finish conn how => exact ⟨hregistered nofun, h.leaving⟩
  | accept conn =>
    refine ⟨fun hin => ?_, h.leaving⟩
    show update w.registered conn true c = true
    by_cases hc : c = conn
    · rw [hc, update_self]
    · rw [update_of_ne hc]
      exact hregistered (fun ha => hc (PollAct.accept.inj ha).symm) hin
  | notify hpc conn ev =>
    obtain ⟨-, -, hsame, -, hpc'⟩ := takeUp_spec rfl hpc
    refine ⟨fun hin => hsame ▸ hregistered nofun hin, ?_⟩
    rcases hpc' with hpc' | ⟨lost, hpc', hwhy⟩
    · rw [hpc']
      exact id
    · rw [hpc']
      rintro ⟨rfl, hlost⟩
      rw [hflags ev rfl] at hwhy
      exact Bool.false_ne_true (hwhy hlost).2
  | @recv conn lost got hpc size =>
    obtain ⟨-, -, hsame, -, hmoved⟩ := recvRound_spec (show w.recvRound conn lost got size = _ from rfl)
    refine ⟨fun hin => hsame ▸ hregistered nofun hin, fun hleaving => ?_⟩
    have hold := h.leaving
    have hnew := recvRound_ne_drained hpc hsafe rfl
    rw [hpc] at hold
    rcases hmoved with ⟨n, hpc', -⟩ | ⟨hpc', -, -⟩
    · rw [hpc'] at hleaving
      exact hold hleaving
    · rw [hpc'] at hleaving hnew
      obtain ⟨rfl, hlost | rfl⟩ := hleaving
      · exact hold ⟨rfl, hlost⟩
      · cases lost with
        | none => exact hnew rfl
        | some code => exact hold ⟨rfl, rfl⟩
  | @emit conn lost got hpc =>
    obtain ⟨hpc', -, -, -, hleft⟩ := emitEvents_spec (show w.emitEvents conn lost got = _ from rfl)
    refine ⟨fun hin => ?_, hpc' ▸ id⟩
    have hleaving := h.leaving
    rw [hpc] at hleaving
    rw [hleft]
    split
    · next hgiven =>
      rw [update_of_ne fun hc => hleaving ⟨hc.symm, hgiven⟩]
      exact hregistered nofun hin
    · exact hregistered nofun hin
  | close conn =>
    refine ⟨fun hin => ?_, h.leaving⟩
    have hc : c ≠ conn := fun hc => hclose (by rw [hc])
    exact (update_of_ne hc _ _).trans (hregistered nofun hin)

/-- **A connection is reported lost only if it is**, in every run in which no first `recv` behind a readable
notification returns would-block: a disconnect event comes behind an end of file or an error that `recv`
returned, and an accepted connection without these, without a flag and without a call of `close` is still
registered. -/
theorem disconnect_only_if_ended
    (hready : ∀ pre a post t, acts = pre ++ a :: post → run step .init pre = some t → spurious t a = false)
    (hrun : run step .init acts = some w) (c : ConnId) :
    (.disconnect c ∈ w.events → RecvEnded acts c) ∧
    (.accept c ∈ acts → ¬RecvEnded acts c → (∀ ev, .notify c ev ∈ acts → (ev.error || ev.hangup) = false) →
      .close c ∉ acts → w.registered c = true) := by
  have hsafe : ¬RecvEnded acts c → ∀ pre a post t, acts = pre ++ a :: post → run step .init pre = some t →
      spurious t a = false ∧ recvEnds c t a = false := by
    intro hended pre a post t hsplit ht
    refine ⟨hready pre a post t hsplit ht, Bool.not_eq_true _ ▸ fun h => hended ?_⟩
    exact ⟨pre, a, post, t, hsplit, ht, h⟩
  constructor
  · intro hevent
    by_contra hended
    have hquiet : Quiet c .init := ⟨by simp [PollWorld.events, PollWorld.init], Pc.noConfusion⟩
    exact (run_safe (fun _ _ _ => Quiet.step) hquiet (hsafe hended) hrun).events hevent
  · intro haccept hended hflags hclose
    have hkept : Kept c [] .init := ⟨fun h => absurd h not_mem_nil, id⟩
    refine (run_history (I := Kept c) hkept (fun hist a rest t t' hsplit ht hk hstep => ?_) hrun).registered
      haccept
    have hin : a ∈ acts := by simp [hsplit]
    refine hk.step (hsafe hended hist a rest t hsplit ht) (fun ev ha => hflags ev (ha ▸ hin)) ?_ hstep
    rintro rfl
    exact hclose hin

/-- Bytes, then the end of file. -/
def endedActs : List PollAct :=
  [.accept 0, .arrive 0 [1], .notify 0 ⟨true, false, false⟩, .recv 8, .recv 8, .emit, .finish 0 .fin,
    .notify 0 ⟨true, false, false⟩, .recv 8, .emit]

theorem disconnect_only_if_ended_fin : ∃ w, run step .init endedActs = some w ∧
    TransportEvent.disconnect 0 ∈ w.events ∧ RecvEnded endedActs 0 := by
  have hchecks : checks step (fun w a => !spurious w a) init endedActs = true := by decide +kernel
  refine exists_and_of_decide (by decide +kernel) fun w hrun hevent => ?_
  refine (disconnect_only_if_ended (fun pre a post t hsplit ht => ?_) hrun 0).1 hevent
  simpa using safe_of_checks hchecks hsplit ht

/-- A readable notification with nothing to read. -/
def spuriousActs : List PollAct := [.accept 0, .notify 0 ⟨true, false, false⟩, .recv 8, .emit]

/-- **A connection to which nothing has happened is reported lost** and given up. -/
theorem spurious_disconnect : ∃ w, run step .init spuriousActs = some w ∧
    (TransportEvent.disconnect 0 ∈ w.events ∧ w.registered 0 = false) ∧ ¬RecvEnded spuriousActs 0 := by
  have hchecks : checks step (fun w a => !recvEnds 0 w a) init spuriousActs = true := by decide +kernel
  refine exists_and_of_decide (by decide +kernel) fun _ _ _ => ?_
  rintro ⟨pre, a, post, t, hsplit, ht, hends⟩
  simpa [hends] using safe_of_checks hchecks hsplit ht

end Quiet

end Fly.Network.Poll
