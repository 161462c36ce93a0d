import Fly.Agent.PeerFrames
import Fly.Agent.PendingRpcMap
import Fly.Lib.Threads

/-!
# Calls between peers (`WorkerAgent::peer_rpc_call`)

A call registers a pending object under a new id, sends its request over a connection and waits until the
object is completed.  The handlers of the network thread complete it: a response names the id, the loss of
a connection fails all objects of the connection, and a peer may announce a failure that names no id.

* `PendingPeerRpc` — the pending object, with a note of what the call should return;
* `PeerRpcState`, `exec`, `program` — the calls and the handlers, one instruction for each lock section;
* `Settled` — every object holds what its call should return, and every call has returned that;
* `calls_settled` — so it is in every state of a run in which no handler finds an object that it has to
  complete and does not, or completes one that is completed already;
* `outcomes_not_final` — an announced failure that is ignored, and an answer that is overwritten.
-/

namespace Fly.Agent

open Fly.Lib List Option PendingRpcMap Nat Threaded
open PeerRpcWireStatus (notifyFailure)

inductive PeerRpcStatus where
  | pending
  | ok
  | error
  | failed
  | notReady
  deriving DecidableEq

/-- The status of a response, as the caller gets it; what is not known counts as an error. -/
def PeerRpcStatus.ofWire (status : UInt8) : PeerRpcStatus :=
  if status = PeerRpcWireStatus.ok.code then .ok
  else if status = PeerRpcWireStatus.notReady.code then .notReady
  else .error

/-- What a call should return: the first response with its id, or a failure if the loss of its connection
or the announcement of a failure on it came before that.  A response may come as a stream; `reader` is
what reading the stream to its end gives, and `none` inside if that throws. -/
inductive Due where
  | response (status : UInt8) (payload : String) (reader : Option (Option String))
  | failure
  deriving DecidableEq

/-- The pending object.  `rpcId` and `due` are records that no function reads: the id of the call, and what
it should return according to what has happened since it was registered. -/
structure PendingPeerRpc where
  status : PeerRpcStatus := .pending
  payload : String := ""
  reader : Option (Option String) := none
  conn : ℕ
  rpcId : ℕ
  due : Option Due := none
  deriving DecidableEq

namespace PendingPeerRpc

/-- Something has happened that decides the call, unless it was decided before. -/
def expect (d : Due) (p : PendingPeerRpc) : PendingPeerRpc := { p with due := p.due.or (some d) }

def fill (status : UInt8) (payload : String) (reader : Option (Option String)) (p : PendingPeerRpc) :
    PendingPeerRpc :=
  { p.expect (.response status payload reader) with status := .ofWire status, payload, reader }

variable (p : PendingPeerRpc)

def disconnect : PendingPeerRpc :=
  { p.expect .failure with status := .failed, payload := "peer connection closed" }

/-- What the caller returns from a completed object; a stream is read to its end. -/
def answer : Option String :=
  match p.reader with
  | some content => content
  | none => some p.payload

/-- The object holds what the call should return, as soon as that is decided. -/
def Agrees : Prop :=
  match p.due with
  | none => p.status = .pending
  | some (.response status payload reader) =>
    p.status = .ofWire status ∧ p.payload = payload ∧ p.reader = reader
  | some .failure => p.status = .failed ∨ p.status = .error

end PendingPeerRpc

open PendingPeerRpc

/-- A call that has returned, with its object as it was then. -/
structure ReturnedCall where
  rpcId : ℕ
  object : Option PendingPeerRpc
  status : PeerRpcStatus
  /-- `none` if reading a stream has thrown -/
  answer : Option String
  deriving DecidableEq

/-- The call has returned what it should, and if nothing had been decided, that it failed. -/
def ReturnedCall.Agrees (r : ReturnedCall) : Prop :=
  ∃ p, r.object = some p ∧ p.rpcId = r.rpcId ∧ match p.due with
    | none => r.status = .failed
    | some (.response status payload reader) =>
      r.status = .ofWire status ∧ r.answer = reader.getD (some payload)
    | some .failure => r.status = .failed ∨ r.status = .error

structure PeerRpcState where
  nextRpcId : ℕ := 1
  pending : PendingRpcMap ℕ PendingPeerRpc := {}
  /-- the connections the transport knows -/
  connections : List ℕ
  returned : List ReturnedCall := []

open PeerRpcState

namespace PeerRpcState

def objectOf (s : PeerRpcState) (rpcId : ℕ) : Option PendingPeerRpc :=
  (s.pending.find rpcId).bind fun ptr => s.pending.objects[ptr]?

def isDone (p : PendingPeerRpc) : Bool := p.status != .pending

inductive Instr where
  -- peer_rpc_call
  | fetchRpcId (conn : ℕ)
  | emplace (conn rpcId : ℕ)
  | sendRequest (conn rpcId : ℕ)
  | sendFailed (rpcId : ℕ)
  | waitEnter (rpcId : ℕ)
  | waitWake (rpcId : ℕ)
  | eraseResult (rpcId ptr : ℕ)
  | readResult (rpcId ptr : ℕ)
  -- the network thread
  | respond (conn rpcId : ℕ) (status : UInt8) (payload : String) (reader : Option (Option String))
  | dropConnection (conn : ℕ)
  | sweep (conn : ℕ)
  | silentEnd (conn : ℕ)
  deriving DecidableEq

open Instr

/-- One instruction; `timedOut` says whether the deadline of a waiting call has passed. -/
def exec (timedOut : Bool) (s : PeerRpcState) : Instr → Option (PeerRpcState × List Instr)
  | .fetchRpcId conn => some ({ s with nextRpcId := s.nextRpcId + 1 }, [.emplace conn s.nextRpcId])
  | .emplace conn rpcId =>
    some ({ s with pending := s.pending.emplace rpcId { conn, rpcId } }, [.sendRequest conn rpcId])
  | .sendRequest conn rpcId =>
    some (s, if s.connections.contains conn then [.waitEnter rpcId] else [.sendFailed rpcId])
  | .sendFailed rpcId =>
    some ({ s with
      pending := s.pending.erase rpcId
      returned := s.returned ++ [⟨rpcId, s.objectOf rpcId, .failed, some "send_request failed"⟩] }, [])
  | .waitEnter rpcId =>
    match s.pending.waitEnter rpcId isDone with
    | none => some (s, [.waitWake rpcId])
    | some none =>
      some ({ s with
        returned := s.returned ++ [⟨rpcId, s.objectOf rpcId, .failed, some "timeout"⟩] }, [])
    | some (some ptr) => some (s, [.eraseResult rpcId ptr])
  | .waitWake rpcId =>
    match s.pending.waitWake rpcId isDone timedOut with
    | none => none
    -- the entry is gone when the lock is released, so the call returns by itself
    | some (m, none) =>
      some ({ s with
        pending := m
        returned := s.returned ++ [⟨rpcId, s.objectOf rpcId, .failed, some "timeout"⟩] }, [])
    | some (m, some ptr) => some ({ s with pending := m }, [.eraseResult rpcId ptr])
  | .eraseResult rpcId ptr => some ({ s with pending := s.pending.erase rpcId }, [.readResult rpcId ptr])
  | .readResult rpcId ptr =>
    match s.pending.objects[ptr]? with
    | none => none
    | some p => some ({ s with returned := s.returned ++ [⟨rpcId, some p, p.status, p.answer⟩] }, [])
  | .respond conn rpcId status payload reader =>
    -- a BYE is a matter of the connection and is not passed on
    if status = PeerRpcWireStatus.bye.code then some (s, [])
    else
      -- an announced failure concerns all calls on the connection, but is handled like any response
      let noted :=
        if status = notifyFailure.code then
          s.pending.completeAllIf (fun p => p.conn == conn) (.expect .failure)
        else s.pending
      some ({ s with pending := noted.complete rpcId (.fill status payload reader) }, [])
  | .dropConnection conn => some ({ s with connections := s.connections.erase conn }, [])
  | .sweep conn =>
    some ({ s with pending := s.pending.completeAllIf (fun p => p.conn == conn) .disconnect }, [])
  -- the handler is not called for a connection that was closed with BYE, nor for one that the transport
  -- reports as ERROR
  | .silentEnd conn =>
    some ({ s with pending := s.pending.completeAllIf (fun p => p.conn == conn) (.expect .failure) }, [])

/-- A call of the worker, or an event of the network thread; the transport has dropped a connection when
its event is handled. -/
inductive Call where
  | peerRpcCall (conn : ℕ)
  | onResponse (conn rpcId : ℕ) (status : UInt8) (payload : String) (reader : Option (Option String))
  | onNotifyFailure (conn : ℕ) (reason : String)
  | onDisconnect (conn : ℕ) (bye : Bool)
  | onError (conn : ℕ)
  deriving DecidableEq

def program : Call → List Instr
  | .peerRpcCall conn => [.fetchRpcId conn]
  | .onResponse conn rpcId status payload reader => [.respond conn rpcId status payload reader]
  | .onNotifyFailure conn reason => [.respond conn 0 notifyFailure.code reason none]
  | .onDisconnect conn bye => [.dropConnection conn, if bye then .silentEnd conn else .sweep conn]
  | .onError conn => [.dropConnection conn, .silentEnd conn]

abbrev RpcWorld := World PeerRpcState Instr Empty

abbrev peerRpc : Threaded PeerRpcState Instr Empty Bool Call := .plain program exec

def init (connections : List ℕ) : RpcWorld := { shared := { connections }, threads := [] }

def ids (s : PeerRpcState) : List ℕ := s.pending.objects.map rpcId

/-- Every object holds what its call should return, no two calls share an id, and every call has returned
what it should. -/
structure Settled (s : PeerRpcState) : Prop where
  objects : ∀ p ∈ s.pending.objects, p.Agrees
  unique : s.ids.Nodup
  returned : ∀ r ∈ s.returned, r.Agrees

/-- The handlers meet the objects as they should: a response one that is not completed; an announced
failure, or the end of a connection for which no handler is called, none that is not; a lost connection, or
a request that cannot be sent, none that was answered. -/
def Orderly (w : RpcWorld) (_ : Bool) : Instr → Prop
  | .respond conn rpcId status _ _ =>
    status ≠ PeerRpcWireStatus.bye.code → ∀ x ∈ w.shared.pending.registered,
      (x.1 = rpcId → x.2.status = .pending) ∧
      (status = notifyFailure.code → x.2.conn = conn →
        x.1 = rpcId ∨ x.2.status ≠ .pending)
  | .silentEnd conn => ∀ x ∈ w.shared.pending.registered, x.2.conn = conn → x.2.status ≠ .pending
  | .sweep conn => ∀ x ∈ w.shared.pending.registered, x.2.conn = conn →
      x.2.status = .pending ∨ x.2.status = .failed
  | .sendFailed rpcId => ∀ x ∈ w.shared.pending.registered, x.1 = rpcId →
      x.2.status = .pending ∨ x.2.status = .failed
  | _ => True

instance (w : RpcWorld) (e : Bool) (op : Instr) : Decidable (Orderly w e op) := by
  cases op <;> (dsimp only [Orderly]; infer_instance)

/-! ### Objects -/

section Objects

variable {p : PendingPeerRpc}

theorem ofWire_ne (status : UInt8) : PeerRpcStatus.ofWire status ≠ .pending ∧
    PeerRpcStatus.ofWire status ≠ .failed := by
  unfold PeerRpcStatus.ofWire
  split
  · exact ⟨by decide, by decide⟩
  · split
    all_goals exact ⟨by decide, by decide⟩

/-- An object that is not completed waits for something to happen. -/
theorem due_of_pending (h : p.Agrees) (hpending : p.status = .pending) : p.due = none := by
  unfold PendingPeerRpc.Agrees at h
  split at h
  · next hdue => exact hdue
  · next status payload reader hdue =>
    rw [hpending] at h
    exact absurd h.1.symm (ofWire_ne status).1
  · rw [hpending] at h
    exact absurd h (by decide)

/-- An object that the loss of its connection has completed. -/
theorem due_of_failed (h : p.Agrees) (hfailed : p.status = .failed) : p.due = some .failure := by
  unfold PendingPeerRpc.Agrees at h
  split at h
  · rw [hfailed] at h
    cases h
  · next status payload reader hdue =>
    rw [hfailed] at h
    exact absurd h.1.symm (ofWire_ne status).2
  · next hdue => exact hdue

theorem agrees_disconnect (h : p.Agrees) (hstatus : p.status = .pending ∨ p.status = .failed) :
    p.disconnect.Agrees := by
  rcases hstatus with hpending | hfailed
  · have hdue := due_of_pending h hpending
    simp [PendingPeerRpc.Agrees, disconnect, expect, hdue]
  · have hdue := due_of_failed h hfailed
    simp [PendingPeerRpc.Agrees, disconnect, expect, hdue]

/-- Nothing changes for a call that is decided. -/
theorem expect_of_ne_pending (h : p.Agrees) (hdone : p.status ≠ .pending) (d : Due) : p.expect d = p := by
  cases hdue : p.due with
  | none =>
    rw [PendingPeerRpc.Agrees, hdue] at h
    exact absurd h hdone
  | some d' =>
    obtain ⟨status, payload, reader, conn, rpcId, due⟩ := p
    cases hdue
    rfl

end Objects

/-! ### Whose object it is -/

/-- How far a call has come: it has an id, its object is in the map, or it has its result. -/
inductive Stage where
  | placing
  | waiting
  | finishing
  deriving DecidableEq

def Instr.stage : Instr → Option (Stage × ℕ)
  | emplace _ rpcId => some (.placing, rpcId)
  | sendRequest _ rpcId | sendFailed rpcId | waitEnter rpcId | waitWake rpcId => some (.waiting, rpcId)
  | eraseResult rpcId _ | readResult rpcId _ => some (.finishing, rpcId)
  | _ => none

/-- The instruction as a number: is it of this stage of this call? -/
def Instr.isAt (stage : Stage) (rpcId : ℕ) (op : Instr) : ℕ :=
  if op.stage = some (stage, rpcId) then 1 else 0

/-- The object that a call has found is the call's own. -/
def Instr.Owns (s : PeerRpcState) (op : Instr) : Prop :=
  ∀ rpcId ptr, op = .eraseResult rpcId ptr ∨ op = .readResult rpcId ptr → s.ids[ptr]? = some rpcId

/-- Each id is used by one call, whose object stays in the map while it waits. -/
structure Kept (w : RpcWorld) : Prop where
  calls : ∀ rpcId, w.weigh (isAt .placing rpcId) + w.weigh (isAt .waiting rpcId) +
    w.weigh (isAt .finishing rpcId) ≤ if rpcId < w.shared.nextRpcId then 1 else 0
  ids : ∀ rpcId, w.shared.ids.count rpcId + w.weigh (isAt .placing rpcId) ≤
    if rpcId < w.shared.nextRpcId then 1 else 0
  waiting : ∀ rpcId, 0 < w.weigh (isAt .waiting rpcId) → ∃ ptr, w.shared.pending.find rpcId = some ptr
  keyed : ∀ rpcId ptr, w.shared.pending.find rpcId = some ptr → w.shared.ids[ptr]? = some rpcId
  owns : w.All (Instr.Owns w.shared)

section Kept

variable {w : RpcWorld} {i rpcId : ℕ} {op : Instr} {rest todo : List Instr} {e : Bool} {s s' : PeerRpcState}

theorem kept_init (connections : List ℕ) : Kept (init connections) where
  calls rpcId := zero_le _
  ids rpcId := zero_le _
  waiting rpcId h := absurd h (lt_irrefl 0)
  keyed := nofun
  owns := by
    exact nofun

/-- No call begins with a result in hand. -/
theorem program_ne_result {g : Call} (hop : op ∈ program g) (rpcId ptr : ℕ) :
    ¬(op = .eraseResult rpcId ptr ∨ op = .readResult rpcId ptr) := by
  cases g with
  | peerRpcCall | onResponse | onNotifyFailure =>
    rw [mem_singleton.mp hop]
    simp
  | onDisconnect conn bye =>
    simp only [program, mem_cons, not_mem_nil, or_false] at hop
    rcases hop with rfl | rfl
    · simp
    · cases bye <;> simp
  | onError conn =>
    simp only [program, mem_cons, not_mem_nil, or_false] at hop
    rcases hop with rfl | rfl <;> simp

theorem Kept.call (h : Kept w) (g : Call) : Kept { w with threads := w.threads ++ [program g] } := by
  have hprogram : ∀ stage rpcId, ((program g).map (isAt stage rpcId)).sum = 0 := by
    intro stage rpcId
    cases g with
    | peerRpcCall | onResponse | onNotifyFailure => rfl
    | onDisconnect conn bye => cases bye <;> rfl
    | onError conn => rfl
  have hweigh : ∀ stage rpcId, World.weigh (isAt stage rpcId)
      { w with threads := w.threads ++ [program g] } = w.weigh (isAt stage rpcId) := by
    intro stage rpcId
    rw [World.weigh_call, hprogram, add_zero]
  refine ⟨?_, ?_, ?_, h.keyed, h.owns.call ?_⟩
  · intro rpcId
    rw [hweigh, hweigh, hweigh]
    exact h.calls rpcId
  · intro rpcId
    rw [hweigh]
    exact h.ids rpcId
  · intro rpcId
    rw [hweigh]
    exact h.waiting rpcId
  · intro op hop rpcId ptr heq
    exact absurd heq (program_ne_result hop rpcId ptr)

/-- A call that goes on with an object had it before, or has found it completed under its id. -/
theorem found_of_exec (h : exec e s op = some (s', todo)) {x : Instr} (hx : x ∈ todo) {ptr : ℕ}
    (heq : x = .eraseResult rpcId ptr ∨ x = .readResult rpcId ptr) :
    s'.pending.objects = s.pending.objects ∧ (op = .eraseResult rpcId ptr ∨
      s.pending.find rpcId = some ptr ∧ s.pending.isDone isDone ptr = true) := by
  cases op with
  | fetchRpcId conn | emplace conn rpcId' =>
    cases h
    rw [mem_singleton.mp hx] at heq
    simp at heq
  | sendRequest conn rpcId' =>
    cases h
    split at hx <;> (rw [mem_singleton.mp hx] at heq; simp at heq)
  | sendFailed rpcId' | dropConnection conn | sweep conn | silentEnd conn =>
    cases h
    cases hx
  | respond conn rpcId' status payload reader | readResult rpcId' ptr' =>
    simp only [exec] at h
    split at h <;> cases h
    all_goals cases hx
  | waitEnter rpcId' =>
    simp only [exec] at h
    split at h <;> cases h
    · rw [mem_singleton.mp hx] at heq
      simp at heq
    · cases hx
    · next ptr' hwait =>
      rw [mem_singleton.mp hx] at heq
      simp only [eraseResult.injEq, reduceCtorEq, or_false] at heq
      obtain ⟨rfl, rfl⟩ := heq
      exact ⟨rfl, .inr (waitEnter_eq_some _ hwait)⟩
  | waitWake rpcId' =>
    simp only [exec] at h
    split at h <;> cases h
    · cases hx
    rename_i m ptr' hwait
    rw [mem_singleton.mp hx] at heq
    simp only [eraseResult.injEq, reduceCtorEq, or_false] at heq
    obtain ⟨rfl, rfl⟩ := heq
    obtain ⟨ptr, hfind, ⟨hptr, rfl, hdone⟩ | ⟨hnone, -⟩⟩ := waitWake_cases _ hwait
    · cases hptr
      exact ⟨rfl, .inr ⟨hfind, hdone⟩⟩
    · cases hnone
  | eraseResult rpcId' ptr' =>
    cases h
    rw [mem_singleton.mp hx] at heq
    simp only [reduceCtorEq, readResult.injEq, false_or] at heq
    obtain ⟨rfl, rfl⟩ := heq
    exact ⟨rfl, .inl rfl⟩

theorem find_erase_cases (m : PendingRpcMap ℕ PendingPeerRpc) (rpcId k : ℕ) :
    (m.erase rpcId).find k = m.find k ∨ k = rpcId ∧ (m.erase rpcId).find k = none := by
  rw [find_erase]
  by_cases hk : k = rpcId
  · exact .inr ⟨hk, if_pos hk⟩
  · exact .inl (if_neg hk)

variable (hi : w.threads[i]? = some (op :: rest))
include hi

/-- An instruction that is about to be executed counts. -/
theorem isAt_le_weigh (stage : Stage) (rpcId : ℕ) :
    op.isAt stage rpcId ≤ w.weigh (isAt stage rpcId) := by
  have hweigh := World.weigh_exec (f := isAt stage rpcId) hi [] w.shared none
  rw [map_nil, sum_nil] at hweigh
  omega

/-- **What a step has to keep**: ids are given out once, and an entry is erased only by its own call. -/
theorem Kept.step (h : Kept w)
    (hcalls : ∀ rpcId, (todo.map (isAt .placing rpcId)).sum +
      (todo.map (isAt .waiting rpcId)).sum + (todo.map (isAt .finishing rpcId)).sum +
      (if rpcId < w.shared.nextRpcId then 1 else 0) ≤
      op.isAt .placing rpcId + op.isAt .waiting rpcId + op.isAt .finishing rpcId +
      if rpcId < s.nextRpcId then 1 else 0)
    (hids : ∀ rpcId, s.ids.count rpcId + (todo.map (isAt .placing rpcId)).sum +
      (if rpcId < w.shared.nextRpcId then 1 else 0) ≤
      w.shared.ids.count rpcId + op.isAt .placing rpcId + if rpcId < s.nextRpcId then 1 else 0)
    (hfind : ∀ rpcId, (s.pending.find rpcId = w.shared.pending.find rpcId ∧
        (todo.map (isAt .waiting rpcId)).sum ≤ op.isAt .waiting rpcId) ∨
      (∃ ptr : ℕ, s.pending.find rpcId = some ptr ∧ s.ids[ptr]? = some rpcId) ∨
      s.pending.find rpcId = none ∧ op.isAt .waiting rpcId + op.isAt .finishing rpcId = 1 ∧
        (todo.map (isAt .waiting rpcId)).sum = 0)
    (hgrow : ∀ (ptr rpcId : ℕ), w.shared.ids[ptr]? = some rpcId → s.ids[ptr]? = some rpcId)
    (howns : ∀ x ∈ todo, x.Owns s) :
    Kept (w.proceed i s (todo ++ rest)) := by
  unfold World.proceed
  have hweigh := fun stage rpcId =>
    World.weigh_exec (f := isAt stage rpcId) hi todo s w.holder
  refine ⟨fun rpcId => ?_, fun rpcId => ?_, fun rpcId hpos => ?_, fun rpcId ptr hptr => ?_, ?_⟩
  · have hplacing := hweigh .placing rpcId
    have hwaiting := hweigh .waiting rpcId
    have hfinishing := hweigh .finishing rpcId
    have hold := h.calls rpcId
    have hnew := hcalls rpcId
    show _ ≤ if rpcId < s.nextRpcId then 1 else 0
    omega
  · have hplacing := hweigh .placing rpcId
    have hold := h.ids rpcId
    have hnew := hids rpcId
    show s.ids.count rpcId + _ ≤ if rpcId < s.nextRpcId then 1 else 0
    omega
  · have hwaiting := hweigh .waiting rpcId
    rcases hfind rpcId with ⟨hsame, hle⟩ | ⟨ptr, hptr, -⟩ | ⟨-, hone, hnone⟩
    · rw [hsame]
      exact h.waiting rpcId (by omega)
    · exact ⟨ptr, hptr⟩
    -- the call that erases its entry is the only one with this id
    have hold := h.calls rpcId
    have hf := isAt_le_weigh hi .finishing rpcId
    have hone' : (if rpcId < w.shared.nextRpcId then 1 else 0) ≤ 1 := by split <;> omega
    omega
  · rcases hfind rpcId with ⟨hsame, -⟩ | ⟨ptr', hptr', hid⟩ | ⟨hnone, -⟩
    · rw [hsame] at hptr
      exact hgrow ptr rpcId (h.keyed rpcId ptr hptr)
    · rw [hptr] at hptr'
      cases hptr'
      exact hid
    · rw [hptr] at hnone
      cases hnone
  · have hall : w.All (Instr.Owns s) := fun thread hthread x hx rpcId ptr heq =>
      hgrow ptr rpcId (h.owns thread hthread x hx rpcId ptr heq)
    exact hall.set hi howns s w.holder

/-- The step of a handler: it fills objects, and nothing else. -/
theorem Kept.fill (h : Kept w) (hstage : op.stage = none)
    (hnext : s.nextRpcId = w.shared.nextRpcId) (hids : s.ids = w.shared.ids)
    (hfind : ∀ rpcId, s.pending.find rpcId = w.shared.pending.find rpcId) :
    Kept (w.proceed i s ([] ++ rest)) := by
  have hat : ∀ stage rpcId, op.isAt stage rpcId = 0 := by
    intro stage rpcId
    rw [isAt, hstage]
    rfl
  refine h.step hi (fun rpcId => ?_) (fun rpcId => ?_) (fun rpcId => ?_) (fun ptr rpcId hptr => ?_) ?_
  · rw [hnext, hat, hat, hat]
    rfl
  · rw [hnext, hids, hat]
    rfl
  · exact .inl ⟨hfind rpcId, zero_le _⟩
  · rw [hids]
    exact hptr
  · exact nofun

/-- The step of a waiting or finishing call: it goes on, or it has returned; it may have erased its
entry, and then it waits no more. -/
theorem Kept.proceed (h : Kept w)
    (hstage : op.stage = some (.waiting, rpcId) ∨ op.stage = some (.finishing, rpcId))
    (hnext : s.nextRpcId = w.shared.nextRpcId) (hids : s.ids = w.shared.ids)
    (htodo : todo = [] ∨ ∃ x, todo = [x] ∧
      ((x.stage = some (.waiting, rpcId) ∧ op.stage = some (.waiting, rpcId) ∧
          s.pending.find rpcId = w.shared.pending.find rpcId) ∨
        x.stage = some (.finishing, rpcId)))
    (hfind : ∀ k, s.pending.find k = w.shared.pending.find k ∨ k = rpcId ∧ s.pending.find k = none)
    (howns : ∀ x ∈ todo, x.Owns s) :
    Kept (w.proceed i s (todo ++ rest)) := by
  have hop : ∀ k, op.isAt .placing k = 0 ∧
      op.isAt .waiting k + op.isAt .finishing k = if rpcId = k then 1 else 0 := by
    intro k
    rcases hstage with hstage | hstage <;> simp [isAt, hstage]
  have hsum : ∀ k, (todo.map (isAt .placing k)).sum = 0 ∧
      (todo.map (isAt .waiting k)).sum + (todo.map (isAt .finishing k)).sum ≤
        if rpcId = k then 1 else 0 := by
    intro k
    rcases htodo with rfl | ⟨x, rfl, ⟨hx, -⟩ | hx⟩
    · exact ⟨rfl, zero_le _⟩
    · simp [isAt, hx]
    · simp [isAt, hx]
  refine h.step hi (fun k => ?_) (fun k => ?_) (fun k => ?_) (fun ptr k hptr => ?_) howns
  · have h₁ := hop k
    have h₂ := hsum k
    rw [hnext]
    omega
  · rw [hnext, hids, (hop k).1, (hsum k).1]
  · have h₁ := hop k
    rcases hfind k with hsame | ⟨rfl, hnone⟩
    · refine .inl ⟨hsame, ?_⟩
      rcases htodo with rfl | ⟨x, rfl, ⟨hx, hwait, -⟩ | hx⟩
      · exact zero_le _
      · simp [isAt, hx, hwait]
      · simp [isAt, hx]
    · -- the entry is gone, so the call does not go on waiting
      rcases htodo with rfl | ⟨x, rfl, ⟨hx, hwait, hkept⟩ | hx⟩
      · exact .inr (.inr ⟨hnone, by simpa using h₁.2, rfl⟩)
      · exact .inl ⟨hkept, by simp [isAt, hx, hwait]⟩
      · exact .inr (.inr ⟨hnone, by simpa using h₁.2, by simp [isAt, hx]⟩)
  · rw [hids]
    exact hptr

/-- **Every step keeps the ids apart.** -/
theorem Kept.exec (h : Kept w)
    (hexec : exec e w.shared op = some (s, todo)) :
    Kept (w.proceed i s (todo ++ rest)) := by
  have howns : ∀ x ∈ todo, x.Owns s := by
    intro x hx rpcId ptr heq
    obtain ⟨hobjects, hfound⟩ := found_of_exec hexec hx heq
    rw [PeerRpcState.ids, hobjects]
    rcases hfound with rfl | ⟨hfind, -⟩
    · exact h.owns.head hi rpcId ptr (.inl rfl)
    · exact h.keyed rpcId ptr hfind
  cases op with
  | fetchRpcId conn =>
    cases hexec
    refine h.step hi (fun k => ?_) (fun k => ?_) (fun k => ?_) (fun _ _ => id) howns
    · simp only [isAt, stage, map_cons, map_nil, sum_cons, sum_nil,
        some.injEq, Prod.mk.injEq, reduceCtorEq, false_and, true_and, if_false]
      split_ifs <;> omega
    · simp only [isAt, stage, map_cons, map_nil, sum_cons, sum_nil,
        some.injEq, Prod.mk.injEq, reduceCtorEq, true_and, if_false]
      show w.shared.ids.count k + _ + _ ≤ _
      split_ifs <;> omega
    · exact .inl ⟨rfl, le_of_eq (by simp [isAt, stage])⟩
  | emplace conn rpcId =>
    cases hexec
    have hlength : w.shared.ids.length = w.shared.pending.objects.length := length_map _
    have happend : ({ w.shared with
        pending := w.shared.pending.emplace rpcId { conn, rpcId } } : PeerRpcState).ids =
        w.shared.ids ++ [rpcId] := map_append
    refine h.step hi (fun k => ?_) (fun k => ?_) (fun k => ?_) (fun ptr k hptr => ?_) howns
    · simp [isAt, stage]
    · rw [happend, count_append, count_singleton]
      simp [isAt, stage]
    · rw [find_emplace]
      by_cases hk : k = rpcId
      · refine .inr (.inl ⟨_, if_pos hk, ?_⟩)
        rw [happend, ← hlength, List.getElem?_append_right le_rfl, Nat.sub_self, hk]
        rfl
      · exact .inl ⟨if_neg hk, by simp [isAt, stage, Ne.symm hk]⟩
    · rw [happend, List.getElem?_append_left (List.getElem?_eq_some_iff.mp hptr).1]
      exact hptr
  | sendRequest conn rpcId =>
    cases hexec
    refine h.proceed hi (.inl rfl) rfl rfl (.inr ?_) (fun _ => .inl rfl) howns
    split
    all_goals exact ⟨_, rfl, .inl ⟨rfl, rfl, rfl⟩⟩
  | sendFailed rpcId =>
    cases hexec
    exact h.proceed hi (.inl rfl) rfl rfl (.inl rfl) (find_erase_cases _ rpcId) howns
  | waitEnter rpcId =>
    simp only [exec] at hexec
    split at hexec <;> cases hexec
    · exact h.proceed hi (.inl rfl) rfl rfl (.inr ⟨_, rfl, .inl ⟨rfl, rfl, rfl⟩⟩) (fun _ => .inl rfl) howns
    · exact h.proceed hi (.inl rfl) rfl rfl (.inl rfl) (fun _ => .inl rfl) howns
    · exact h.proceed hi (.inl rfl) rfl rfl (.inr ⟨_, rfl, .inr rfl⟩) (fun _ => .inl rfl) howns
  | waitWake rpcId =>
    simp only [exec] at hexec
    split at hexec <;> cases hexec
    · next m hwait =>
      obtain ⟨ptr, -, ⟨hptr, -⟩ | ⟨-, rfl, -⟩⟩ := waitWake_cases _ hwait
      · cases hptr
      · exact h.proceed hi (.inl rfl) rfl rfl (.inl rfl) (find_erase_cases _ rpcId) howns
    · next m ptr hwait =>
      obtain ⟨-, -, ⟨-, rfl, -⟩ | ⟨hnone, -⟩⟩ := waitWake_cases _ hwait
      · exact h.proceed hi (.inl rfl) rfl rfl (.inr ⟨_, rfl, .inr rfl⟩) (fun _ => .inl rfl) howns
      · cases hnone
  | eraseResult rpcId ptr =>
    cases hexec
    exact h.proceed hi (.inr rfl) rfl rfl (.inr ⟨_, rfl, .inr rfl⟩) (find_erase_cases _ rpcId) howns
  | readResult rpcId ptr =>
    simp only [exec] at hexec
    split at hexec <;> cases hexec
    exact h.proceed hi (.inr rfl) rfl rfl (.inl rfl) (fun _ => .inl rfl) howns
  | respond conn rpcId status payload reader =>
    simp only [exec] at hexec
    split at hexec
    · cases hexec
      exact h.fill hi rfl rfl rfl fun _ => rfl
    cases hexec
    refine h.fill hi rfl rfl ?_ fun k => ?_
    · have hkeeps : ∀ p, (PendingPeerRpc.fill status payload reader p).rpcId = p.rpcId := fun _ => rfl
      refine (map_objects_complete _ _ _ hkeeps).trans ?_
      split
      · exact map_objects_completeAllIf _ _ _ fun _ => rfl
      · rfl
    · refine (find_complete _ _ _ k).trans ?_
      split <;> rfl
  | dropConnection conn =>
    cases hexec
    exact h.fill hi rfl rfl rfl fun _ => rfl
  | sweep conn | silentEnd conn =>
    cases hexec
    exact h.fill hi rfl rfl (map_objects_completeAllIf _ _ _ fun _ => rfl) fun _ => rfl

end Kept

/-! ### What a call returns -/

section Settled

variable {w : RpcWorld} {i : ℕ} {op : Instr} {rest todo : List Instr} {e : Bool} {s s' : PeerRpcState}

/-- What a handler may do to an object of the map. -/
inductive Handled : Instr → ℕ → PendingPeerRpc → PendingPeerRpc → Prop where
  | filled {conn rpcId : ℕ} {status : UInt8} {payload : String} {reader : Option (Option String)}
      {p : PendingPeerRpc} (hbye : status ≠ PeerRpcWireStatus.bye.code) :
      Handled (.respond conn rpcId status payload reader) rpcId p (p.fill status payload reader)
  | announced {conn rpcId : ℕ} {payload : String} {reader : Option (Option String)} {p : PendingPeerRpc} :
      Handled (.respond conn rpcId notifyFailure.code payload reader) rpcId p
        ((p.expect .failure).fill notifyFailure.code payload reader)
  | ignored {conn rpcId key : ℕ} {payload : String} {reader : Option (Option String)}
      {p : PendingPeerRpc} (hconn : p.conn = conn) (hkey : key ≠ rpcId) :
      Handled (.respond conn rpcId notifyFailure.code payload reader) key p
        (p.expect .failure)
  | swept {conn key : ℕ} {p : PendingPeerRpc} (hconn : p.conn = conn) :
      Handled (.sweep conn) key p p.disconnect
  | left {conn key : ℕ} {p : PendingPeerRpc} (hconn : p.conn = conn) :
      Handled (.silentEnd conn) key p (p.expect .failure)

variable {p' p : PendingPeerRpc} {ptr key : ℕ}

/-- **What a step does to the objects**: they stay, a call adds its own, or a handler has changed them. -/
theorem objects_of_exec (h : exec e s op = some (s', todo)) (hp' : s'.pending.objects[ptr]? = some p') :
    s.pending.objects[ptr]? = some p' ∨
      (ptr = s.pending.objects.length ∧ ∃ conn rpcId, p' = { conn, rpcId }) ∨
      ∃ key p, s.pending.find key = some ptr ∧ s.pending.objects[ptr]? = some p ∧ Handled op key p p' := by
  cases op with
  | fetchRpcId conn | sendRequest conn rpcId | sendFailed rpcId | eraseResult rpcId ptr
  | dropConnection conn =>
    cases h
    exact .inl hp'
  | emplace conn rpcId =>
    cases h
    rw [objects_emplace] at hp'
    split at hp'
    · next hptr =>
      cases hp'
      exact .inr (.inl ⟨hptr, conn, rpcId, rfl⟩)
    · exact .inl hp'
  | waitEnter rpcId | readResult rpcId ptr' =>
    simp only [exec] at h
    split at h <;> cases h
    all_goals exact .inl hp'
  | waitWake rpcId =>
    simp only [exec] at h
    split at h <;> cases h
    all_goals
      rename_i hwait
      obtain ⟨-, -, ⟨-, rfl, -⟩ | ⟨-, rfl, -⟩⟩ := waitWake_cases _ hwait <;> exact .inl hp'
  | sweep conn | silentEnd conn =>
    cases h
    rcases objects_completeAllIf _ hp' with hsame | ⟨key, p, hfind, hp, hconn, rfl⟩
    · exact .inl hsame
    · refine .inr (.inr ⟨key, p, hfind, hp, ?_⟩)
      constructor
      exact beq_iff_eq.mp hconn
  | respond conn rpcId status payload reader =>
    simp only [exec] at h
    split at h
    · cases h
      exact .inl hp'
    rename_i hbye
    cases h
    rw [objects_complete] at hp'
    by_cases hnotify : status = notifyFailure.code
    · subst hnotify
      rw [if_pos rfl, find_completeAllIf] at hp'
      split at hp'
      · next hfind =>
        obtain ⟨q, hq, rfl⟩ := map_eq_some_iff.mp hp'
        rcases objects_completeAllIf _ hq with hp | ⟨-, p, -, hp, -, rfl⟩
        · exact .inr (.inr ⟨rpcId, q, hfind, hp, .filled hbye⟩)
        · exact .inr (.inr ⟨rpcId, p, hfind, hp, .announced⟩)
      · next hother =>
        rcases objects_completeAllIf _ hp' with hsame | ⟨key, p, hfind, hp, hconn, rfl⟩
        · exact .inl hsame
        · refine .inr (.inr ⟨key, p, hfind, hp, .ignored (beq_iff_eq.mp hconn) ?_⟩)
          rintro rfl
          exact hother hfind
    · rw [if_neg hnotify] at hp'
      split at hp'
      · next hfind =>
        obtain ⟨p, hp, rfl⟩ := map_eq_some_iff.mp hp'
        exact .inr (.inr ⟨rpcId, p, hfind, hp, .filled hbye⟩)
      · exact .inl hp'

/-- A handler never takes an outcome back to nothing. -/
theorem Handled.status_ne (h : Handled op key p p') (hdone : p.status ≠ .pending) : p'.status ≠ .pending := by
  cases h with
  | filled => exact (ofWire_ne _).1
  | announced => exact (ofWire_ne notifyFailure.code).1
  | ignored => exact hdone
  | swept => exact nofun
  | left => exact hdone

/-- **In an orderly step a handler keeps the agreement.** -/
theorem Handled.agrees (h : Handled op key p p')
    (hok : Orderly w e op) (hfind : w.shared.pending.find key = some ptr)
    (hp : w.shared.pending.objects[ptr]? = some p) (hagrees : p.Agrees) : p'.Agrees := by
  have hin : (key, p) ∈ w.shared.pending.registered :=
    (mem_registered _).mpr ⟨ptr, hfind, hp⟩
  cases h with
  | filled hbye =>
    have hdue := due_of_pending hagrees ((hok hbye _ hin).1 rfl)
    simp [PendingPeerRpc.Agrees, fill, expect, hdue]
  | announced =>
    -- the announced failure names the id of the call
    have hdue := due_of_pending hagrees ((hok (by decide) _ hin).1 rfl)
    simp only [PendingPeerRpc.Agrees, fill, expect, hdue]
    exact .inr rfl
  | ignored hconn hkey =>
    rcases (hok (by decide) _ hin).2 rfl hconn with heq | hdone
    · exact absurd heq hkey
    · rw [expect_of_ne_pending hagrees hdone]
      exact hagrees
  | swept hconn => exact agrees_disconnect hagrees (hok _ hin hconn)
  | left hconn =>
    rw [expect_of_ne_pending hagrees (hok _ hin hconn)]
    exact hagrees

theorem Kept.object_of_waiting (h : Kept w) (hi : w.threads[i]? = some (op :: rest)) {rpcId : ℕ}
    (hstage : op.stage = some (.waiting, rpcId)) :
    ∃ ptr p, w.shared.pending.find rpcId = some ptr ∧ w.shared.pending.objects[ptr]? = some p ∧
      p.rpcId = rpcId ∧ w.shared.objectOf rpcId = some p := by
  have hle := isAt_le_weigh hi .waiting rpcId
  rw [isAt, if_pos hstage] at hle
  obtain ⟨ptr, hfind⟩ := h.waiting rpcId hle
  have hid := h.keyed rpcId ptr hfind
  rw [PeerRpcState.ids, getElem?_map] at hid
  obtain ⟨p, hp, hrpc⟩ := map_eq_some_iff.mp hid
  refine ⟨ptr, p, hfind, hp, hrpc, ?_⟩
  rw [objectOf, hfind, bind_some, hp]

/-- The object that a call has found is completed. -/
def Instr.Finds (s : PeerRpcState) (op : Instr) : Prop :=
  ∀ rpcId ptr, op = .eraseResult rpcId ptr ∨ op = .readResult rpcId ptr →
    ∀ p, s.pending.objects[ptr]? = some p → p.status ≠ .pending

structure Sound (w : RpcWorld) : Prop where
  kept : Kept w
  objects : ∀ p ∈ w.shared.pending.objects, p.Agrees
  finds : w.All (Instr.Finds w.shared)
  returned : ∀ r ∈ w.shared.returned, r.Agrees

theorem sound_init (connections : List ℕ) : Sound (init connections) where
  kept := kept_init connections
  objects := nofun
  finds := nofun
  returned := nofun

theorem status_ne_of_isDone {m : PendingRpcMap ℕ PendingPeerRpc}
    (h : m.isDone isDone ptr = true) (hp : m.objects[ptr]? = some p) :
    p.status ≠ .pending := by
  rw [PendingRpcMap.isDone, hp, any_some] at h
  exact bne_iff_ne.mp h

/-- What a call returns from its object, once it is completed. -/
theorem returned_agrees (hagrees : p.Agrees) (hdone : p.status ≠ .pending) :
    (⟨p.rpcId, some p, p.status, p.answer⟩ : ReturnedCall).Agrees := by
  refine ⟨p, rfl, rfl, ?_⟩
  unfold PendingPeerRpc.Agrees at hagrees
  cases hdue : p.due with
  | none =>
    rw [hdue] at hagrees
    exact absurd hagrees hdone
  | some d =>
    rw [hdue] at hagrees
    cases d with
    | failure => exact hagrees
    | response status payload reader =>
      obtain ⟨hstatus, hpayload, hreader⟩ := hagrees
      refine ⟨hstatus, ?_⟩
      rw [answer, hreader, hpayload]
      cases reader <;> rfl

/-- A call that returns a failure of its own. -/
theorem failed_agrees (hagrees : p.Agrees)
    (hstatus : p.status = .pending ∨ p.status = .failed) (answer : Option String) :
    (⟨p.rpcId, some p, .failed, answer⟩ : ReturnedCall).Agrees := by
  refine ⟨p, rfl, rfl, ?_⟩
  rcases hstatus with hpending | hfailed
  · rw [due_of_pending hagrees hpending]
  · rw [due_of_failed hagrees hfailed]
    exact .inl rfl

section

variable (h : Sound w) (hi : w.threads[i]? = some (op :: rest))
  (hexec : exec e w.shared op = some (s, todo))
include h hi hexec

theorem Sound.returned_exec (hok : Orderly w e op) : ∀ r ∈ s.returned, r.Agrees := by
  have hlast : ∀ r₀ : ReturnedCall, r₀.Agrees → ∀ r ∈ w.shared.returned ++ [r₀], r.Agrees :=
    fun r₀ hr₀ => forall_mem_append.mpr ⟨h.returned, forall_mem_singleton.mpr hr₀⟩
  cases op with
  | fetchRpcId conn | emplace conn rpcId | sendRequest conn rpcId | eraseResult rpcId ptr
  | dropConnection conn | sweep conn | silentEnd conn =>
    cases hexec
    exact h.returned
  | respond conn rpcId status payload reader =>
    simp only [exec] at hexec
    split at hexec <;> (cases hexec; exact h.returned)
  | sendFailed rpcId =>
    cases hexec
    obtain ⟨ptr, p, hfind, hp, rfl, hobject⟩ := h.kept.object_of_waiting hi rfl
    refine hlast _ ?_
    rw [hobject]
    exact failed_agrees (h.objects p (mem_of_getElem? hp))
      (hok (p.rpcId, p) ((mem_registered _).mpr ⟨ptr, hfind, hp⟩) rfl) _
  | waitEnter rpcId =>
    obtain ⟨ptr, p, hfind, hp, rfl, hobject⟩ := h.kept.object_of_waiting hi rfl
    simp only [exec] at hexec
    split at hexec
    · cases hexec
      exact h.returned
    · next hwait =>
      simp only [PendingRpcMap.waitEnter, hfind] at hwait
      split at hwait <;> cases hwait
    · cases hexec
      exact h.returned
  | waitWake rpcId =>
    obtain ⟨ptr, p, hfind, hp, rfl, hobject⟩ := h.kept.object_of_waiting hi rfl
    simp only [exec] at hexec
    split at hexec
    · cases hexec
    · next m hwait =>
      cases hexec
      refine hlast _ ?_
      rw [hobject]
      -- the time is up and nothing was recorded
      obtain ⟨ptr', hptr, ⟨hsome, -⟩ | ⟨-, -, hnot⟩⟩ := waitWake_cases _ hwait
      · cases hsome
      rw [hfind, some.injEq] at hptr
      subst hptr
      rw [PendingRpcMap.isDone, hp, any_some] at hnot
      exact failed_agrees (h.objects p (mem_of_getElem? hp)) (.inl (by simpa [isDone] using hnot)) _
    · cases hexec
      exact h.returned
  | readResult rpcId ptr =>
    have hown := h.kept.owns.head hi rpcId ptr (.inr rfl)
    simp only [exec] at hexec
    split at hexec
    · cases hexec
    rename_i p hp
    cases hexec
    rw [ids, getElem?_map, hp, map_some, some.injEq] at hown
    subst hown
    exact hlast _ (returned_agrees (h.objects p (mem_of_getElem? hp))
      (h.finds.head hi p.rpcId ptr (.inr rfl) p hp))

/-- What a call goes on with has found a completed object. -/
theorem Sound.finds_todo : ∀ x ∈ todo, x.Finds s := by
  intro x hx rpcId ptr heq p hp
  obtain ⟨hobjects, hfound⟩ := found_of_exec hexec hx heq
  rw [hobjects] at hp
  rcases hfound with rfl | ⟨-, hdone⟩
  · exact h.finds.head hi rpcId ptr (.inl rfl) p hp
  · exact status_ne_of_isDone hdone hp

/-- **Every orderly step keeps the agreement.** -/
theorem Sound.exec (hok : Orderly w e op) :
    Sound (w.proceed i s (todo ++ rest)) := by
  refine ⟨h.kept.exec hi hexec, ?_, ?_, h.returned_exec hi hexec hok⟩
  · intro p' hp'
    obtain ⟨ptr, hptr⟩ := mem_iff_getElem?.mp hp'
    rcases objects_of_exec hexec hptr with hold | ⟨-, conn, rpcId, rfl⟩ | ⟨key, p, hfind, hp, hhandled⟩
    · exact h.objects p' (mem_of_getElem? hold)
    · rfl
    · exact hhandled.agrees hok hfind hp (h.objects p (mem_of_getElem? hp))
  · have hall : w.All (Instr.Finds s) := by
      intro thread hthread x hx rpcId ptr heq p' hp'
      have hold := h.finds thread hthread x hx rpcId ptr heq
      rcases objects_of_exec hexec hp' with hsame | ⟨hnew, -⟩ | ⟨key, p, -, hp, hhandled⟩
      · exact hold p' hsame
      · -- the object was there before
        have hown := h.kept.owns thread hthread x hx rpcId ptr heq
        have hlt := (List.getElem?_eq_some_iff.mp hown).1
        rw [ids, length_map] at hlt
        omega
      · exact hhandled.status_ne (hold p hp)
    exact hall.set hi (h.finds_todo hi hexec) s w.holder

end

theorem Sound.call (h : Sound w) (g : Call) : Sound { w with threads := w.threads ++ [program g] } := by
  refine ⟨h.kept.call g, h.objects, h.finds.call ?_, h.returned⟩
  intro op hop rpcId ptr heq
  exact absurd heq (program_ne_result hop rpcId ptr)

/-- **Outcomes are final and complete.**  In every run in which the handlers meet the objects as they should,
every object holds what its call should return, and every call that has returned has returned that. -/
theorem calls_settled {connections : List ℕ} {as : List (Action Bool Call)}
    (hmeets : peerRpc.Meets (atInstr Orderly) (init connections) as)
    (hrun : run peerRpc.step (init connections) as = some w) : w.shared.Settled := by
  have hsound : Sound w := by
    refine plain_run_meets (I := Sound) (C := Orderly) ?_ ?_ (sound_init connections) hmeets hrun
    · intro w g h
      exact h.call g
    · intro w i e op rest s todo h hi hok hexec
      exact h.exec hi hexec hok
  refine ⟨hsound.objects, nodup_iff_count_le_one.mpr fun rpcId => ?_, hsound.returned⟩
  have hcount := hsound.kept.ids rpcId
  have hone : (if rpcId < w.shared.nextRpcId then 1 else 0) ≤ 1 := by split <;> omega
  omega

/-- The first call on a connection, up to where it waits. -/
def firstCall (conn : ℕ) : List (Action Bool Call) :=
  [.call (.peerRpcCall conn), .step 0 false, .step 0 false, .step 0 false, .step 0 false]

/-- The first call wakes up and returns. -/
def firstReturns : List (Action Bool Call) := [.step 0 false, .step 0 false, .step 0 false]

/-- The first call is answered and returns; then the connection is lost under the second. -/
def answeredThenLost : List (Action Bool Call) :=
  firstCall 5 ++ [.call (.onResponse 5 1 PeerRpcWireStatus.ok.code "sum" none), .step 1 false]
    ++ firstReturns
    ++ [.call (.peerRpcCall 5), .step 2 false, .step 2 false, .step 2 false, .step 2 false,
      .call (.onDisconnect 5 false), .step 3 false, .step 3 false,
      .step 2 false, .step 2 false, .step 2 false]

theorem calls_settled_answeredThenLost : ∃ w, run peerRpc.step (init [5]) answeredThenLost = some w ∧
    w.shared.returned.map (fun r => (r.rpcId, r.status, r.answer)) =
      [(1, .ok, some "sum"), (2, .failed, some "peer connection closed")] ∧
    w.shared.Settled := by
  have hmeets : peerRpc.Meets (atInstr Orderly) (init [5]) answeredThenLost :=
    meets_of_decide (by decide +kernel)
  exact exists_and_of_decide (by decide +kernel) fun w hrun _ => calls_settled hmeets hrun

/-- The peer announces a failure while the call waits, and then answers it. -/
def failureThenAnswer : List (Action Bool Call) :=
  firstCall 6 ++ [.call (.onNotifyFailure 6 "diverged"), .step 1 false,
    .call (.onResponse 6 1 PeerRpcWireStatus.ok.code "late" none), .step 2 false] ++ firstReturns

/-- The call is answered, and the connection is lost before the caller wakes up. -/
def answerThenLoss : List (Action Bool Call) :=
  firstCall 6 ++ [.call (.onResponse 6 1 PeerRpcWireStatus.ok.code "done" none), .step 1 false,
    .call (.onDisconnect 6 false), .step 2 false, .step 2 false] ++ firstReturns

/-- A call that has returned an answer although it should have failed, or a failure although it was
answered, has not returned what it should. -/
theorem not_settled_of_returned {d : Due} {status : PeerRpcStatus} {answer : Option String}
    (hstatus : match d with
      | .response code _ _ => status ≠ .ofWire code
      | .failure => status ≠ .failed ∧ status ≠ .error)
    (hreturned : s.returned.map (fun r => (r.object.bind due, r.status, r.answer)) =
      [(some d, status, answer)]) : ¬s.Settled := by
  intro hsettled
  obtain ⟨r, hr, hdata⟩ := map_eq_singleton_iff.mp hreturned
  simp only [Prod.mk.injEq] at hdata
  obtain ⟨hdue, hgot, -⟩ := hdata
  obtain ⟨p, hobject, -, hagrees⟩ := hsettled.returned r (by rw [hr]; exact mem_singleton_self r)
  rw [hobject, bind_some] at hdue
  rw [hdue, hgot] at hagrees
  cases d with
  | response code payload reader => exact hstatus hagrees.1
  | failure =>
    rcases hagrees with hfailed | herror
    · exact hstatus.1 hfailed
    · exact hstatus.2 herror

/-- **Outcomes are not final.**  After an announced failure the call returns a later answer; and an answer
that was recorded for a call is overwritten when its connection is lost. -/
theorem outcomes_not_final : (∃ w, run peerRpc.step (init [6]) failureThenAnswer = some w ∧
      w.shared.returned.map (fun r => (r.object.bind due, r.status, r.answer)) =
        [(some .failure, .ok, some "late")] ∧ ¬w.shared.Settled) ∧
    ∃ w, run peerRpc.step (init [6]) answerThenLoss = some w ∧
      w.shared.returned.map (fun r => (r.object.bind due, r.status, r.answer)) =
        [(some (.response PeerRpcWireStatus.ok.code "done" none), .failed,
          some "peer connection closed")] ∧ ¬w.shared.Settled := by
  constructor
  · exact exists_and_of_decide (by decide +kernel) fun w _ hw => not_settled_of_returned (by decide) hw
  · exact exists_and_of_decide (by decide +kernel) fun w _ hw => not_settled_of_returned (by decide) hw

end Settled

end PeerRpcState

end Fly.Agent
