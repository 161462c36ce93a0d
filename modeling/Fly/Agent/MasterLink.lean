import Fly.Lib.Threads

/-!
# The worker's link to the master

A worker talks to its master over one connection at a time.  When it is lost, `on_disconnect` starts
`reconnect_loop`, which connects again, stores the new connection in `master_conn_` and registers anew;
`on_register_ack` ends the outage.  Task threads decide on two flags, without a lock, whether a message
is sent at once or buffered until the next registration.

Every load, store, push, drain and send of these functions is an instruction of its own, so that another
thread may come between any two of them; the lock sections of `register_state_mutex_` are the
instructions between `lock` and `unlock`.

* `MasterLink` — the fields of the agent these functions share, with the connections of the transport;
* `MasterLink.exec` — what each instruction does; `MasterLink.program` — the functions;
* `registered_of_exec`, `reconnecting_of_exec`, `masterConn_of_exec` — which instructions write a flag;
* `registered_on_masterConn` — registration refers to the current connection, in the runs in which an
  acknowledgement is only ever taken on it and it is only replaced while the worker is not registered;
* `registered_on_superseded_conn` — the run in which it does not.
-/

namespace Fly.Agent

open Fly.Lib Threaded

/-- What the worker hands to `reactor_->send`: a registration, a `TaskComplete` or `TaskFailed`, or one
of the messages that go through `enqueue_master_send` while the worker is not registered. -/
inductive LinkMessage (ρ μ : Type) where
  | register
  | report (r : ρ)
  | request (m : μ)
  deriving DecidableEq

/-- A call of `reactor_->send`, with the connection `master_conn_` held at that moment. -/
structure SendRecord (ρ μ : Type) where
  conn : ℕ
  masterConn : ℕ
  message : LinkMessage ρ μ
  accepted : Bool
  deriving DecidableEq

/-- The shared state, as `start()` leaves it: the first connection is stored before any handler runs.

`registeredOn` and `sent` are records of the past that no function reads: the connection of the
acknowledgement that last stored `registered_ = true`, and all sends. -/
structure MasterLink (ρ μ : Type) where
  registered : Bool := false
  reconnecting : Bool := false
  running : Bool := true
  shutdownTriggered : Bool := false
  masterConn : ℕ := 1
  /-- the connections the transport knows, and the last number it gave out -/
  connections : List ℕ := [1]
  lastConn : ℕ := 1
  /-- `register_state_mutex_` is taken -/
  locked : Bool := false
  /-- `reconnect_thread_` has not ended -/
  looping : Bool := false
  pendingReports : List ρ := []
  pendingMasterSends : List μ := []
  registeredOn : Option ℕ := none
  sent : List (SendRecord ρ μ) := []
  deriving DecidableEq

namespace MasterLink

/-- What the outside decides at a step: the configured grace, whether a deadline has passed, whether
`connect` succeeds, and whether the socket takes the bytes of a send. -/
structure Outside where
  grace : ℤ := 120
  overdue : Bool := false
  connects : Bool := true
  accepts : Bool := true

inductive Instr (ρ μ : Type) where
  -- send_master_or_buffer
  | loadReconnecting (r : ρ)
  | loadRegistered (r : ρ)
  | sendReport (r : ρ)
  | pushReport (r : ρ)
  -- the callers of enqueue_master_send
  | checkRegistered (m : μ)
  | sendRequest (m : μ)
  | enqueueMasterSend (m : μ)
  -- reactor_->send
  | send (conn : ℕ) (message : LinkMessage ρ μ)
  -- register_state_mutex_
  | lock
  | unlock
  -- on_register_ack
  | checkConnected (conn : ℕ)
  | setRegistered (conn : ℕ)
  | clearReconnecting
  | replayPendingMasterSends
  | loadReplayConn (toReplay : List μ)
  | flushPendingReports
  -- on_disconnect
  | closed (conn : ℕ)
  | checkMasterConn (conn : ℕ)
  | checkGrace
  | setReconnecting
  | clearRegistered
  | startReconnectThread
  -- reconnect_loop
  | loopHead
  | checkDeadline
  | giveUp
  | connect
  | storeMasterConn (conn : ℕ)
  | awaitAck
  | loopEnd
  -- initiate_shutdown
  | initiateShutdown
  | stopRegistered
  | stopRunning
  | clearMasterSends
  | dropMasterConn
  deriving DecidableEq

variable {ρ μ : Type}

/-- One instruction: the state after it, and what the thread does before the rest; `none` while it has
to wait for a lock or for the end of another thread. -/
def exec (e : Outside) (s : MasterLink ρ μ) : Instr ρ μ → Option (MasterLink ρ μ × List (Instr ρ μ))
  -- `!reconnecting_.load() && registered_.load()`
  | .loadReconnecting r => some (s, if s.reconnecting then [.pushReport r] else [.loadRegistered r])
  | .loadRegistered r => some (s, if s.registered then [.sendReport r] else [.pushReport r])
  | .sendReport r => some (s, [.send s.masterConn (.report r)])
  | .pushReport r => some ({ s with pendingReports := s.pendingReports ++ [r] }, [])
  | .checkRegistered m => some (s, if s.registered then [.sendRequest m] else [.enqueueMasterSend m])
  | .sendRequest m => some (s, [.send s.masterConn (.request m)])
  | .enqueueMasterSend m => some ({ s with pendingMasterSends := s.pendingMasterSends ++ [m] }, [])
  -- a connection the transport does not know takes nothing; no caller looks at the result
  | .send conn message =>
    some ({ s with sent := s.sent ++
      [⟨conn, s.masterConn, message, s.connections.contains conn && e.accepts⟩] }, [])
  | .lock => if s.locked then none else some ({ s with locked := true }, [])
  | .unlock => some ({ s with locked := false }, [])
  | .checkConnected conn =>
    some (s, if s.connections.contains conn then [.setRegistered conn] else [.unlock])
  | .setRegistered conn =>
    some ({ s with registered := true, registeredOn := some conn }, [.clearReconnecting])
  | .clearReconnecting =>
    some ({ s with reconnecting := false }, [.unlock, .replayPendingMasterSends, .flushPendingReports])
  | .replayPendingMasterSends =>
    some ({ s with pendingMasterSends := [] },
      if s.pendingMasterSends.isEmpty then [] else [.loadReplayConn s.pendingMasterSends])
  | .loadReplayConn toReplay => some (s, toReplay.map fun m => .send s.masterConn (.request m))
  -- each report loads `master_conn_` again
  | .flushPendingReports => some ({ s with pendingReports := [] }, s.pendingReports.map .sendReport)
  | .closed conn => some ({ s with connections := s.connections.erase conn }, [])
  | .checkMasterConn conn => some (s, if conn = s.masterConn then [.checkGrace] else [])
  | .checkGrace => some (s, if e.grace ≤ 0 then [.initiateShutdown] else [.lock, .setReconnecting])
  | .setReconnecting =>
    some ({ s with reconnecting := true },
      if s.reconnecting then [.unlock] else [.clearRegistered, .unlock, .startReconnectThread])
  | .clearRegistered => some ({ s with registered := false }, [])
  -- joins the thread of the previous round; the thread goes on as the new one
  | .startReconnectThread => if s.looping then none else some ({ s with looping := true }, [.loopHead])
  -- `running_` only ever falls, so loading the two flags at once gives what loading them in turn gives
  | .loopHead => some (s, if s.reconnecting && s.running then [.checkDeadline] else [.loopEnd])
  | .checkDeadline => some (s, if e.overdue then [.giveUp] else [.connect])
  | .giveUp => some ({ s with reconnecting := false }, [.initiateShutdown, .loopEnd])
  | .connect =>
    if e.connects then
      some ({ s with lastConn := s.lastConn + 1, connections := (s.lastConn + 1) :: s.connections },
        [.storeMasterConn (s.lastConn + 1)])
    else some (s, [.loopHead])
  | .storeMasterConn conn => some ({ s with masterConn := conn }, [.send conn .register, .awaitAck])
  | .awaitAck =>
    some (s, if s.reconnecting && s.running && !e.overdue then [.awaitAck] else [.loopHead])
  | .loopEnd => some ({ s with looping := false }, [])
  | .initiateShutdown =>
    some ({ s with shutdownTriggered := true },
      if s.shutdownTriggered then []
      else [.stopRegistered, .stopRunning, .clearMasterSends, .dropMasterConn])
  | .stopRegistered => some ({ s with registered := false }, [])
  | .stopRunning => some ({ s with running := false }, [])
  | .clearMasterSends => some ({ s with pendingMasterSends := [] }, [])
  | .dropMasterConn => some ({ s with masterConn := 0 }, [.closed s.masterConn])

/-- What a thread may be started with: a report or a request of a task, an acknowledgement or the loss of
a connection that the reactor hands to its handler, or a shutdown. -/
inductive Call (ρ μ : Type) where
  | sendMasterOrBuffer (r : ρ)
  | sendOrEnqueue (m : μ)
  | onRegisterAck (conn : ℕ) (duplicate : Bool)
  | onDisconnect (conn : ℕ)
  | shutdown
  deriving DecidableEq

def program : Call ρ μ → List (Instr ρ μ)
  | .sendMasterOrBuffer r => [.loadReconnecting r]
  | .sendOrEnqueue m => [.checkRegistered m]
  | .onRegisterAck conn duplicate =>
    if duplicate then [.initiateShutdown] else [.lock, .checkConnected conn]
  -- the transport has dropped the connection when its handler runs
  | .onDisconnect conn => [.closed conn, .checkMasterConn conn]
  | .shutdown => [.initiateShutdown]

end MasterLink

variable {ρ μ : Type}

/-- The worker's threads on the link, in any interleaving. -/
def masterLink (ρ μ : Type) : Threaded (MasterLink ρ μ) (MasterLink.Instr ρ μ) Empty MasterLink.Outside
      (MasterLink.Call ρ μ) :=
  .plain MasterLink.program MasterLink.exec

abbrev LinkWorld (ρ μ : Type) := World (MasterLink ρ μ) (MasterLink.Instr ρ μ) Empty

def LinkWorld.init (ρ μ : Type) : LinkWorld ρ μ := { shared := {} }

namespace MasterLink

/-! ### Who writes what -/

variable {e : Outside} {s s' : MasterLink ρ μ} {op : Instr ρ μ} {todo : List (Instr ρ μ)}

/-- Only an acknowledgement sets `registered_`. -/
theorem registered_of_exec (h : exec e s op = some (s', todo)) (hreg : s'.registered = true) :
    (s.registered = true ∧ s'.registeredOn = s.registeredOn) ∨
      ∃ conn, op = .setRegistered conn ∧ s'.registeredOn = some conn ∧
        s'.masterConn = s.masterConn ∧ todo = [.clearReconnecting] := by
  cases op with
  | setRegistered conn =>
    cases h
    exact .inr ⟨conn, rfl, rfl, rfl, rfl⟩
  | lock | startReconnectThread | connect =>
    refine .inl ?_
    simp only [exec] at h
    split at h <;> cases h
    all_goals exact ⟨hreg, rfl⟩
  | clearRegistered | stopRegistered =>
    cases h
    cases hreg
  | _ =>
    cases h
    exact .inl ⟨hreg, rfl⟩

/-- `reconnecting_` falls in `on_register_ack`, and when `reconnect_loop` gives up. -/
theorem reconnecting_of_exec (h : exec e s op = some (s', todo)) (hrec : s.reconnecting = true) :
    s'.reconnecting = true ∨ op = .clearReconnecting ∨ op = .giveUp := by
  cases op with
  | clearReconnecting => exact .inr (.inl rfl)
  | giveUp => exact .inr (.inr rfl)
  | lock | startReconnectThread | connect =>
    refine .inl ?_
    simp only [exec] at h
    split at h <;> cases h
    all_goals exact hrec
  | setReconnecting =>
    cases h
    exact .inl rfl
  | _ =>
    cases h
    exact .inl hrec

/-- `master_conn_` is stored by `reconnect_loop`, and dropped by a shutdown. -/
theorem masterConn_of_exec (h : exec e s op = some (s', todo)) :
    s'.masterConn = s.masterConn ∨ (∃ conn, op = .storeMasterConn conn) ∨ op = .dropMasterConn := by
  cases op with
  | storeMasterConn conn => exact .inr (.inl ⟨conn, rfl⟩)
  | dropMasterConn => exact .inr (.inr rfl)
  | lock | startReconnectThread | connect =>
    refine .inl ?_
    simp only [exec] at h
    split at h <;> cases h
    all_goals rfl
  | _ =>
    cases h
    exact .inl rfl

/-! ### Registration and the current connection -/

/-- The acknowledgement that set `registered_` came on the connection stored in `master_conn_`. -/
def OnMasterConn (s : MasterLink ρ μ) : Prop :=
  s.registered = true → s.registeredOn = some s.masterConn

/-- An acknowledgement is taken on the connection in `master_conn_`, and `master_conn_` is only replaced
while the worker is not registered. -/
def TakesCurrent (w : LinkWorld ρ μ) (_ : Outside) : Instr ρ μ → Prop
  | .setRegistered conn => conn = w.shared.masterConn
  | .storeMasterConn _ | .dropMasterConn => w.shared.registered = false
  | _ => True

theorem OnMasterConn.exec {w : LinkWorld ρ μ} (hon : w.shared.OnMasterConn)
    (hok : TakesCurrent w e op) (h : exec e w.shared op = some (s', todo)) : s'.OnMasterConn := by
  intro hreg
  rcases registered_of_exec h hreg with ⟨hold, hback⟩ | ⟨conn, rfl, hconn, hmaster, -⟩
  · have hmaster : s'.masterConn = w.shared.masterConn := by
      rcases masterConn_of_exec h with hsame | ⟨conn, rfl⟩ | rfl
      · exact hsame
      · exact absurd hold (by rw [show w.shared.registered = false from hok]; decide)
      · exact absurd hold (by rw [show w.shared.registered = false from hok]; decide)
    rw [hback, hmaster]
    exact hon hold
  · rw [hconn, hmaster, show conn = w.shared.masterConn from hok]

/-- **Registration refers to the current connection**, in every interleaving in which acknowledgements
are only taken on it and it is only replaced while the worker is not registered. -/
theorem registered_on_masterConn {as : List (Action Outside (Call ρ μ))} {w : LinkWorld ρ μ}
    (hok : (masterLink ρ μ).Meets (atInstr TakesCurrent) (LinkWorld.init ρ μ) as)
    (h : run (masterLink ρ μ).step (LinkWorld.init ρ μ) as = some w) : w.shared.OnMasterConn := by
  refine plain_run_meets (I := fun w => w.shared.OnMasterConn) ?_ ?_ ?_ hok h
  · intro w g hon
    exact hon
  · intro w i e op rest s todo hon _ htakes hexec
    exact hon.exec htakes hexec
  · exact nofun

instance (w : LinkWorld ρ μ) (e : Outside) : DecidablePred (TakesCurrent w e) := fun op =>
  decidable_of_bool (match op with
    | .setRegistered conn => conn == w.shared.masterConn
    | .storeMasterConn _ | .dropMasterConn => !w.shared.registered
    | _ => true) (by cases op <;> simp [TakesCurrent])

/-- The first registration, by an acknowledgement on connection 1. -/
def firstRegistration : List (Action Outside (Call ρ μ)) :=
  .call (.onRegisterAck 1 false) :: .replicate 7 (.step 0 {})

/-- The connection is lost, and `reconnect_loop` has opened connection 2 and registered on it. -/
def reconnected : List (Action Outside (Call ρ μ)) :=
  firstRegistration ++ .call (.onDisconnect 1) :: .replicate 13 (.step 1 {})

/-- No acknowledgement comes in time, so connection 3 is opened; connection 2 stays as it is. -/
def reconnectedTwice : List (Action Outside (Call ρ μ)) :=
  reconnected ++ .step 1 { overdue := true } :: .replicate 5 (.step 1 {})

def acknowledged (conn : ℕ) : List (Action Outside (Call ρ μ)) :=
  .call (.onRegisterAck conn false) :: .replicate 7 (.step 2 {})

theorem registered_on_masterConn_reconnected : ∃ w,
    run (masterLink ℕ ℕ).step (LinkWorld.init ℕ ℕ) (reconnected ++ acknowledged 2) = some w ∧
    w.shared.registered = true ∧ w.shared.masterConn = 2 ∧ w.shared.OnMasterConn := by
  have hmeets : (masterLink ℕ ℕ).Meets (atInstr TakesCurrent) (LinkWorld.init ℕ ℕ)
      (reconnected ++ acknowledged 2) :=
    meets_of_decide (by decide +kernel)
  obtain ⟨w, hrun, hreg, hmaster⟩ := exists_of_decide
    (o := run (masterLink ℕ ℕ).step (LinkWorld.init ℕ ℕ) (reconnected ++ acknowledged 2))
    (p := fun w => w.shared.registered = true ∧ w.shared.masterConn = 2) (by decide +kernel)
  exact ⟨w, hrun, hreg, hmaster, registered_on_masterConn hmeets hrun⟩

/-- **A late acknowledgement on a superseded connection registers the worker**: connection 2 is still
open, so its acknowledgement is taken, while `master_conn_` is already 3. -/
theorem registered_on_superseded_conn : ∃ w,
    run (masterLink ℕ ℕ).step (LinkWorld.init ℕ ℕ) (reconnectedTwice ++ acknowledged 2) = some w ∧
    w.shared.registered = true ∧ w.shared.registeredOn = some 2 ∧ w.shared.masterConn = 3 ∧
    ¬w.shared.OnMasterConn := by
  obtain ⟨w, hrun, hreg, hon, hmaster⟩ := exists_of_decide
    (o := run (masterLink ℕ ℕ).step (LinkWorld.init ℕ ℕ) (reconnectedTwice ++ acknowledged 2))
    (p := fun w => w.shared.registered = true ∧ w.shared.registeredOn = some 2 ∧ w.shared.masterConn = 3)
    (by decide +kernel)
  refine ⟨w, hrun, hreg, hon, hmaster, ?_⟩
  intro hgood
  have hconn := hgood hreg
  rw [hon, hmaster] at hconn
  cases hconn

end MasterLink

end Fly.Agent
