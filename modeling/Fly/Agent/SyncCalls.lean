import Fly.Agent.PendingRpcMap
import Fly.Lib.Bytes
import Fly.Lib.Channels
import Fly.Lib.Threads
import Fly.Storage.DataService

/-!
# Synchronous calls to the master

`set_var_sync`, `get_var_sync` and `register_write_with_master` put a pending object under the name of the
variable or object, send the request and wait for the acknowledgement, which carries nothing but the same
name.  A caller that gives up erases its entry; the acknowledgement of its request may still come, and
finds whatever is under the name by then.

A call is known by the pointer of its pending object, `op`.  On requests and acknowledgements in flight
it is a record beside the message: neither the master nor the worker sees it.

* `SyncState`, `SyncState.exec` — the worker's calls, the connections to the master with messages in
  flight, and the master's handlers;
* `Newest` — the object is the last one made for its name;
* `Fresh` — a call is made while no request of its name is unanswered and no other call of that name is
  under way;
* `Owned` — **the invariant**: everything under way refers to the newest object of its name, so an
  acknowledgement only ever fills the object of its own request;
* `acks_belong` — a call that returns success has been processed successfully, in the runs in which all
  calls are fresh; `ack_of_another_call` — the run in which a late acknowledgement answers another call.
-/

namespace Fly.Agent

open PendingRpcMap

open List Option

open Fly.Lib Fly.Storage

/-! ### The model -/

inductive SyncCall where
  | setVar (name : String) (value : Bytes) (typeName : String)
  | getVar (name : String)
  | registerWrite (name : String)
  deriving DecidableEq

/-- `pending_var_ops_` and `pending_write_regs_` side by side: the key says which of the two. -/
inductive RpcKey where
  | varOp (name : String)
  | writeReg (name : String)
  deriving DecidableEq

/-- Calls on a variable share a key, whatever they do with it. -/
def SyncCall.key : SyncCall → RpcKey
  | setVar name _ _ => .varOp name
  | getVar name => .varOp name
  | registerWrite name => .writeReg name

/-- `VarAckMessage` and `WriteRegisterAckMessage`, without the name they echo. -/
structure SyncAck where
  success : Bool
  value : Bytes := []
  typeName : String := ""
  errorMessage : String := ""
  errorType : TaskErrorType := .unknown
  deriving DecidableEq

/-- `PendingVarOp` and `PendingWriteRegister`; of the call they only keep the name. -/
structure PendingOp where
  call : SyncCall
  completed : Bool := false
  success : Bool := false
  value : Option Bytes := none
  typeName : String := ""
  errorMessage : String := ""
  errorType : TaskErrorType := .unknown
  deriving DecidableEq

/-- `on_var_ack` and `on_write_register_ack`: an empty value leaves the pointer as it is. -/
def PendingOp.fill (ack : SyncAck) (p : PendingOp) : PendingOp where
  call := p.call
  completed := true
  success := ack.success
  value := if ack.success && !ack.value.isEmpty then some ack.value else p.value
  typeName := ack.typeName
  errorMessage := ack.errorMessage
  errorType := ack.errorType

/-- A request that the master has processed: the acknowledgement, and what it held for the variable. -/
structure Processed where
  op : ℕ
  call : SyncCall
  ack : SyncAck
  held : Option (Bytes × String)
  deriving DecidableEq

/-- What a call returned; `success` of a registration is the empty error. -/
structure Returned where
  op : ℕ
  call : SyncCall
  success : Bool
  value : Option Bytes
  typeName : String
  errorMessage : String
  errorType : TaskErrorType
  deriving DecidableEq

structure SyncState where
  pending : PendingRpcMap RpcKey PendingOp := {}
  /-- `pending_master_sends_` -/
  outbox : List (ℕ × SyncCall) := []
  masterConn : ℕ := 1
  requests : Channels (ℕ × SyncCall) := []
  acks : Channels Processed := []
  /-- the master's variables, by full name -/
  varStore : Table String (Bytes × String) := ∅
  /-- records of the past that no function reads -/
  processed : List Processed := []
  returned : List Returned := []

namespace SyncState

/-- What the outside decides at a step; `rejected` is the answer of `do_write_register`. -/
structure Outside where
  registered : Bool := true
  accepts : Bool := true
  timedOut : Bool := false
  dbFound : Bool := true
  frozen : Bool := false
  rejected : Option (String × TaskErrorType) := none

/-- `on_var_set`, `on_var_get` and `on_write_register` of the master. -/
def handle (e : Outside) (store : Table String (Bytes × String)) :
    SyncCall → Table String (Bytes × String) × SyncAck
  | .setVar name value typeName =>
    if !e.dbFound then (store, { success := false, errorMessage := "db not found on master" })
    else if e.frozen then (store, { success := false, errorMessage := "db frozen" })
    else if (store.lookup name).isSome then
      (store, { success := false, errorMessage := "var already exists (immutable)" })
    else (store.insert name (value, typeName), { success := true })
  | .getVar name =>
    if !e.dbFound then (store, { success := false })
    else
      match store.lookup name with
      | none => (store, { success := false })
      | some (value, typeName) => (store, { success := true, value := value, typeName := typeName })
  | .registerWrite _ =>
    match e.rejected with
    | none => (store, { success := true })
    | some (message, type) =>
      (store, { success := false, errorMessage := message, errorType := type })

/-- What the master holds for the variable of a call. -/
def held (store : Table String (Bytes × String)) : SyncCall → Option (Bytes × String)
  | .setVar name _ _ => store.lookup name
  | .getVar name => store.lookup name
  | .registerWrite _ => none

/-- What a call returns when `wait_for` gave it an object or the null pointer; `queued` tells whether its
request had to wait for a registration. -/
def outcome (op : ℕ) (call : SyncCall) (queued : Bool) : Option PendingOp → Returned
  | some p => ⟨op, call, p.success, p.value, p.typeName, p.errorMessage, p.errorType⟩
  | none =>
    match call with
    | .registerWrite name =>
      ⟨op, call, false, none, "",
        (if queued then "WriteRegister pending timeout: " else "Write registration timeout for: ") ++
          name, .writeRegistrationTimeout⟩
    | _ => ⟨op, call, false, none, "", "", .unknown⟩

inductive Instr where
  -- a caller: `op` is the pointer of its object, `result` what `wait_for` gave it
  | emplace (call : SyncCall)
  | submit (op : ℕ) (call : SyncCall)
  | waitFor (op : ℕ) (call : SyncCall) (queued : Bool)
  | waiting (op : ℕ) (call : SyncCall) (queued : Bool)
  | erase (op : ℕ) (call : SyncCall) (queued : Bool) (result : Option ℕ)
  | finish (op : ℕ) (call : SyncCall) (queued : Bool) (result : Option ℕ)
  -- the worker's reactor
  | replay
  | deliver (conn : ℕ)
  -- the master
  | serve (conn : ℕ)
  | others (store : Table String (Bytes × String))
  -- the network
  | lose (conn : ℕ)
  | reconnect

def exec (e : Outside) (s : SyncState) : Instr → Option (SyncState × List Instr)
  | .emplace call =>
    some ({ s with pending := s.pending.emplace call.key { call := call } },
      [.submit s.pending.objects.length call])
  -- sent at once, or queued while the worker is not registered; a failed send is not noticed
  | .submit op call =>
    some (if !e.registered then { s with outbox := s.outbox ++ [(op, call)] }
      else if e.accepts then { s with requests := s.requests.send s.masterConn (op, call) }
      else s, [.waitFor op call !e.registered])
  | .waitFor op call queued =>
    match s.pending.waitEnter call.key (·.completed) with
    | some result => some (s, [.erase op call queued result])
    | none => some (s, [.waiting op call queued])
  | .waiting op call queued =>
    (s.pending.waitWake call.key (·.completed) e.timedOut).map fun (pending, result) =>
      ({ s with pending := pending }, [.erase op call queued result])
  | .erase op call queued result =>
    some ({ s with pending := s.pending.erase call.key }, [.finish op call queued result])
  -- the object is read after its entry is gone
  | .finish op call queued result =>
    some ({ s with returned := s.returned ++
      [outcome op call queued (result.bind fun ptr => s.pending.objects[ptr]?)] }, [])
  | .replay =>
    match s.outbox with
    | [] => some (s, [])
    | x :: outbox =>
      some ({ s with
        outbox := outbox
        requests := if e.accepts then s.requests.send s.masterConn x else s.requests }, [])
  | .deliver conn =>
    (s.acks.receive conn).map fun (x, acks) =>
      ({ s with acks := acks, pending := s.pending.complete x.call.key (.fill x.ack) }, [])
  | .serve conn =>
    (s.requests.receive conn).map fun ((op, call), requests) =>
      let x : Processed := ⟨op, call, (handle e s.varStore call).2, held s.varStore call⟩
      ({ s with
        requests := requests
        varStore := (handle e s.varStore call).1
        acks := s.acks.send conn x
        processed := s.processed ++ [x] }, [])
  | .others store => some ({ s with varStore := store }, [])
  | .lose conn =>
    some ({ s with requests := s.requests.drop conn, acks := s.acks.drop conn }, [])
  | .reconnect => some ({ s with masterConn := s.masterConn + 1 }, [])

/-- A call, or something that happens around the calls. -/
inductive Call where
  | call (call : SyncCall)
  | replay
  | deliver (conn : ℕ)
  | serve (conn : ℕ)
  | others (store : Table String (Bytes × String))
  | lose (conn : ℕ)
  | reconnect

def program : Call → List Instr
  | .call call => [.emplace call]
  | .replay => [.replay]
  | .deliver conn => [.deliver conn]
  | .serve conn => [.serve conn]
  | .others store => [.others store]
  | .lose conn => [.lose conn]
  | .reconnect => [.reconnect]

end SyncState

abbrev SyncWorld := World SyncState SyncState.Instr Empty

/-- The calls of one worker, in any interleaving with each other, the master and the network. -/
def syncCalls : Threaded SyncState SyncState.Instr Empty SyncState.Outside SyncState.Call :=
  .plain SyncState.program SyncState.exec

namespace SyncState

/-! ### The newest object of a name -/

def calls (s : SyncState) : List SyncCall := s.pending.objects.map (·.call)

/-- Call `op` is the last one made under its key. -/
def Newest (calls : List SyncCall) (op : ℕ) (call : SyncCall) : Prop :=
  calls[op]? = some call ∧ ∀ j c, op < j → calls[j]? = some c → c.key ≠ call.key

variable {call : SyncCall} {calls : List SyncCall}

/-- A new call of another name changes nothing. -/
theorem Newest.concat {op : ℕ} (h : Newest calls op call)
    {new : SyncCall} (hkey : call.key ≠ new.key) : Newest (calls ++ [new]) op call := by
  refine ⟨?_, ?_⟩
  · rw [getElem?_append_left (List.getElem?_eq_some_iff.mp h.1).1]
    exact h.1
  · intro j c hj hc
    by_cases hlt : j < calls.length
    · rw [getElem?_append_left hlt] at hc
      exact h.2 j c hj hc
    have hmem : c ∈ [new] := by
      rw [getElem?_append_right (by omega)] at hc
      exact mem_of_getElem? hc
    rw [mem_singleton.mp hmem]
    exact hkey.symm

theorem newest_concat (calls : List SyncCall) (new : SyncCall) :
    Newest (calls ++ [new]) calls.length new := by
  refine ⟨by simp, ?_⟩
  intro j c hj hc
  have hlt := (List.getElem?_eq_some_iff.mp hc).1
  rw [length_append, length_singleton] at hlt
  omega

/-! ### Calls that are made while nothing of their name is under way -/

/-- The key a caller has in hand until `wait_for` has returned. -/
def Instr.busy : Instr → Option RpcKey
  | .submit _ call | .waitFor _ call _ | .waiting _ call _ => some call.key
  | _ => none

/-- No request of the name is unanswered, and no other call of the name is under way. -/
def Fresh (w : SyncWorld) (_ : Outside) : Instr → Prop
  | .emplace call =>
    (∀ x ∈ w.shared.outbox, x.2.key ≠ call.key) ∧
    (∀ x ∈ w.shared.requests, x.2.2.key ≠ call.key) ∧
    (∀ x ∈ w.shared.acks, x.2.call.key ≠ call.key) ∧
    w.All fun i => i.busy ≠ some call.key
  | _ => True

/-! ### Every acknowledgement meets its own request -/

/-- What an instruction of a caller refers to. -/
def Instr.Refers (calls : List SyncCall) : Instr → Prop
  | .submit op call | .waitFor op call _ | .waiting op call _ => Newest calls op call
  | .erase op call _ (some ptr) | .finish op call _ (some ptr) => ptr = op ∧ calls[op]? = some call
  | _ => True

def Instr.submits (op : ℕ) : Instr → ℕ
  | .submit op' _ => if op' = op then 1 else 0
  | _ => 0

/-- The places in which request `op` or its acknowledgement is, with the object it has filled. -/
def tokens (op : ℕ) (s : SyncState) : ℕ :=
  s.outbox.countP (fun x => x.1 == op) + s.requests.countP (fun x => x.2.1 == op) +
    s.acks.countP (fun x => x.2.op == op) +
    if s.pending.isDone (·.completed) op then 1 else 0

/-- The object is as `emplace` left it, or as the acknowledgement of its own request did. -/
def Filled (s : SyncState) (ptr : ℕ) (p : PendingOp) : Prop :=
  p = { call := p.call } ∨
    ∃ x ∈ s.processed, x.op = ptr ∧ x.call = p.call ∧ p = .fill x.ack { call := p.call }

/-- A successful answer to `get_var_sync` carries the value the master held. -/
def Honest (x : Processed) : Prop :=
  ∀ name, x.call = .getVar name → x.ack.success = true → x.held = some (x.ack.value, x.ack.typeName)

/-- A call that returned success was processed successfully, and `get_var_sync` returned the value the
master held when it did so; a null pointer stands for an empty value. -/
def Belongs (s : SyncState) (r : Returned) : Prop :=
  r.success = true → ∃ x ∈ s.processed, x.op = r.op ∧ x.call = r.call ∧ x.ack.success = true ∧
    ∀ name, r.call = .getVar name → x.held = some (r.value.getD [], r.typeName)

structure Owned (w : SyncWorld) : Prop where
  outbox : ∀ x ∈ w.shared.outbox, Newest w.shared.calls x.1 x.2
  requests : ∀ x ∈ w.shared.requests, Newest w.shared.calls x.2.1 x.2.2
  acks : ∀ x ∈ w.shared.acks, Newest w.shared.calls x.2.op x.2.call ∧ x.2 ∈ w.shared.processed
  threads : w.All fun i => i.Refers w.shared.calls
  mapped : ∀ key ptr, w.shared.pending.find key = some ptr →
    ∃ call, Newest w.shared.calls ptr call ∧ call.key = key
  filled : ∀ ptr p, w.shared.pending.objects[ptr]? = some p → w.shared.Filled ptr p
  tokens : ∀ op, w.weigh (Instr.submits op) + w.shared.tokens op ≤
    if op < w.shared.calls.length then 1 else 0
  honest : ∀ x ∈ w.shared.processed, Honest x
  returned : ∀ r ∈ w.shared.returned, w.shared.Belongs r

section step

variable {e : Outside} {s' s : SyncState} {todo rest : List Instr} {w : SyncWorld} {i ptr : ℕ} {instr : Instr}
  {p : PendingOp}

/-- What a step that makes no new call leaves is right. -/
structure Leaves (w : SyncWorld) (instr : Instr) (s' : SyncState) (todo : List Instr) : Prop where
  calls : s'.calls = w.shared.calls
  outbox : ∀ x ∈ s'.outbox, Newest w.shared.calls x.1 x.2
  requests : ∀ x ∈ s'.requests, Newest w.shared.calls x.2.1 x.2.2
  acks : ∀ x ∈ s'.acks, Newest w.shared.calls x.2.op x.2.call ∧ x.2 ∈ s'.processed
  refers : ∀ op ∈ todo, Instr.Refers w.shared.calls op
  mapped : ∀ key ptr, s'.pending.find key = some ptr → w.shared.pending.find key = some ptr
  filled : ∀ ptr p, s'.pending.objects[ptr]? = some p → s'.Filled ptr p
  tokens : ∀ op, (todo.map (Instr.submits op)).sum + s'.tokens op ≤ instr.submits op + w.shared.tokens op
  honest : ∀ x ∈ s'.processed, Honest x
  returned : ∀ r ∈ s'.returned, s'.Belongs r

theorem Belongs.mono {r : Returned} (h : s.Belongs r)
    (hmono : ∀ x ∈ s.processed, x ∈ s'.processed) : s'.Belongs r := by
  intro hsuccess
  obtain ⟨x, hx, hrest⟩ := h hsuccess
  exact ⟨x, hmono x hx, hrest⟩

theorem Filled.mono (h : s.Filled ptr p) (hmono : ∀ x ∈ s.processed, x ∈ s'.processed) : s'.Filled ptr p := by
  rcases h with hnew | ⟨x, hx, hrest⟩
  · exact .inl hnew
  · exact .inr ⟨x, hmono x hx, hrest⟩

variable {call : SyncCall} {op conn : ℕ} {x : Processed}

theorem honest_handle (store : Table String (Bytes × String)) (op : ℕ) (call : SyncCall) :
    Honest ⟨op, call, (handle e store call).2, held store call⟩ := by
  intro name hcall hsuccess
  subst hcall
  simp only [handle] at hsuccess ⊢
  by_cases hfound : (!e.dbFound) = true
  · rw [if_pos hfound] at hsuccess
    cases hsuccess
  rw [if_neg hfound] at hsuccess ⊢
  show store.lookup name = _
  cases hlookup : store.lookup name with
  | none =>
    rw [hlookup] at hsuccess
    cases hsuccess
  | some entry => rfl

theorem find_of_erase {m : PendingRpcMap RpcKey PendingOp} {key k : RpcKey}
    (h : (m.erase key).find k = some ptr) : m.find k = some ptr := by
  rw [find_erase] at h
  split at h
  · cases h
  · exact h

variable (hown : Owned w)
include hown

/-- A step that changes nothing but what the thread does next. -/
theorem Owned.leaves (htodo : ∀ op ∈ todo, Instr.Refers w.shared.calls op)
    (hsubmits : ∀ op, (todo.map (Instr.submits op)).sum ≤ instr.submits op) :
    Leaves w instr w.shared todo where
  calls := rfl
  outbox := hown.outbox
  requests := hown.requests
  acks := hown.acks
  refers := htodo
  mapped _ _ := id
  filled := hown.filled
  tokens op := Nat.add_le_add_right (hsubmits op) _
  honest := hown.honest
  returned := hown.returned

theorem Owned.ends (instr : Instr) : Leaves w instr w.shared [] :=
  hown.leaves nofun fun _ => Nat.zero_le _

theorem Owned.of_exec (hi : w.threads[i]? = some (instr :: rest))
    (h : Leaves w instr s' todo) : Owned (w.proceed i s' (todo ++ rest)) where
  outbox := h.calls ▸ h.outbox
  requests := h.calls ▸ h.requests
  acks := h.calls ▸ h.acks
  threads := h.calls ▸ hown.threads.set hi h.refers s' w.holder
  mapped := fun key ptr hfind => h.calls ▸ hown.mapped key ptr (h.mapped key ptr hfind)
  filled := h.filled
  tokens := by
    intro op
    have hweigh := World.weigh_set (f := Instr.submits op) hi (todo ++ rest) s' w.holder
    rw [map_append, sum_append, map_cons, sum_cons] at hweigh
    have hold := hown.tokens op
    have hstep := h.tokens op
    rw [show (w.proceed i s' (todo ++ rest)).shared.calls = w.shared.calls from h.calls]
    dsimp only [World.proceed] at hweigh ⊢
    omega
  honest := h.honest
  returned := h.returned

/-- The caller of a new object, and the object, are the newest of their key. -/
theorem Owned.emplace (hfresh : Fresh w e (.emplace call))
    (hi : w.threads[i]? = some (.emplace call :: rest))
    (h : exec e w.shared (.emplace call) = some (s', todo)) : Owned (w.proceed i s' (todo ++ rest)) := by
  obtain ⟨hout, hreq, hack, hbusy⟩ := hfresh
  have hlen : w.shared.calls.length = w.shared.pending.objects.length := length_map _
  have hcalls : s'.calls = w.shared.calls ++ [call] := by
    cases h
    exact map_append
  have hweigh := fun op => World.weigh_set (f := Instr.submits op) hi (todo ++ rest) s' w.holder
  cases h
  refine ⟨hcalls ▸ fun x hx => (hown.outbox x hx).concat (hout x hx),
    hcalls ▸ fun x hx => (hown.requests x hx).concat (hreq x hx),
    hcalls ▸ fun x hx => ⟨(hown.acks x hx).1.concat (hack x hx), (hown.acks x hx).2⟩,
    ?_, ?_, ?_, ?_, hown.honest, hown.returned⟩
  · -- the other callers have other keys in hand
    have hothers : w.All fun i => i.Refers (w.shared.calls ++ [call]) := by
      intro thread hthread op hop
      have hrefers := hown.threads thread hthread op hop
      have hkey := hbusy thread hthread op hop
      have hkept : ∀ (n : ℕ) (c : SyncCall), w.shared.calls[n]? = some c →
          (w.shared.calls ++ [call])[n]? = some c := by
        intro n c hc
        rw [List.getElem?_append_left (List.getElem?_eq_some_iff.mp hc).1]
        exact hc
      cases op with
      | submit n c | waitFor n c _ | waiting n c _ =>
        refine Newest.concat hrefers ?_
        intro heq
        exact hkey (congrArg some heq)
      | erase n c _ result | finish n c _ result =>
        cases result with
        | none => trivial
        | some ptr => exact ⟨hrefers.1, hkept n c hrefers.2⟩
      | _ => trivial
    rw [hcalls]
    refine hothers.set hi ?_ _ w.holder
    intro op hop
    rw [mem_singleton.mp hop, ← hlen]
    exact newest_concat w.shared.calls call
  · intro key ptr hfind
    rw [hcalls]
    have hfind' := (w.shared.pending.find_emplace call.key { call := call } key).symm.trans hfind
    by_cases hkey : key = call.key
    · rw [if_pos hkey, Option.some.injEq] at hfind'
      refine ⟨call, ?_, hkey.symm⟩
      rw [← hfind', ← hlen]
      exact newest_concat w.shared.calls call
    · rw [if_neg hkey] at hfind'
      obtain ⟨c, hc, hckey⟩ := hown.mapped key ptr hfind'
      exact ⟨c, hc.concat (hckey ▸ hkey), hckey⟩
  · intro ptr p hp
    have hp' := (w.shared.pending.objects_emplace call.key { call := call } ptr).symm.trans hp
    split at hp'
    · cases hp'
      exact .inl rfl
    · exact hown.filled ptr p hp'
  · intro op
    have hweigh := hweigh op
    have hold := hown.tokens op
    have hdone : SyncState.tokens op { w.shared with
        pending := w.shared.pending.emplace call.key { call := call } } = w.shared.tokens op := by
      unfold SyncState.tokens isDone
      rw [objects_emplace]
      by_cases hop : op = w.shared.pending.objects.length
      · rw [if_pos hop, List.getElem?_eq_none (le_of_eq hop.symm)]
        rfl
      · rw [if_neg hop]
    rw [hcalls, hdone, length_append, length_singleton]
    rw [map_append, sum_append, map_singleton, sum_singleton, map_cons, sum_cons] at hweigh
    simp only [Instr.submits] at hweigh
    dsimp only [World.proceed] at hweigh ⊢
    split_ifs at hold hweigh ⊢ <;> omega

/-- The slot of the caller's key has the caller's own object. -/
theorem Owned.ptr_eq (hnew : Newest w.shared.calls op call)
    (hfind : w.shared.pending.find call.key = some ptr) : ptr = op := by
  obtain ⟨call', hnew', hkey⟩ := hown.mapped call.key ptr hfind
  rcases Nat.lt_trichotomy ptr op with hlt | heq | hgt
  · exact absurd hkey.symm (hnew'.2 op call hlt hnew.1)
  · exact heq
  · exact absurd hkey (hnew.2 ptr call' hgt hnew'.1)

/-- An object whose acknowledgement is still in flight is as `emplace` left it. -/
theorem Owned.object_of_ack {x : ℕ × Processed} (hx : x ∈ w.shared.acks)
    (hp : w.shared.pending.objects[x.2.op]? = some p) : p = { call := x.2.call } := by
  have hcall : p.call = x.2.call := by
    have hcalls := (hown.acks x hx).1.1
    rw [calls, List.getElem?_map, hp, map_some, Option.some.injEq] at hcalls
    exact hcalls
  have hone : 0 < w.shared.acks.countP fun y => y.2.op == x.2.op :=
    countP_pos_iff.mpr ⟨x, hx, by simp⟩
  have hbound := hown.tokens x.2.op
  have hnot : w.shared.pending.isDone (·.completed) x.2.op = false := by
    cases hdone : w.shared.pending.isDone (·.completed) x.2.op with
    | false => rfl
    | true =>
      rw [SyncState.tokens, if_pos hdone] at hbound
      split_ifs at hbound <;> omega
  rw [isDone, hp] at hnot
  rcases hown.filled x.2.op p hp with hnew | ⟨y, -, -, -, hfill⟩
  · rw [hnew, hcall]
  · rw [hfill] at hnot
    cases hnot

theorem Owned.deliver (hi : w.threads[i]? = some (.deliver conn :: rest))
    (h : exec e w.shared (.deliver conn) = some (s', todo)) : Owned (w.proceed i s' (todo ++ rest)) := by
  obtain ⟨⟨x, acks⟩, hrecv, heq⟩ := map_eq_some_iff.mp h
  cases heq
  have hx := Channels.mem_of_receive hrecv
  obtain ⟨hnew, hprocessed⟩ := hown.acks _ hx
  have hobjects := w.shared.pending.objects_complete x.call.key (PendingOp.fill x.ack)
  -- only the object of the request itself changes
  have hother : ∀ ptr, ptr ≠ x.op →
      (w.shared.pending.complete x.call.key (PendingOp.fill x.ack)).objects[ptr]? =
        w.shared.pending.objects[ptr]? := by
    intro ptr hne
    rw [hobjects, if_neg]
    intro hfind
    exact hne (hown.ptr_eq hnew hfind)
  refine hown.of_exec hi { hown.ends (.deliver conn) with
    calls := map_objects_complete _ _ _ fun _ => rfl
    acks := fun y hy => hown.acks y (Channels.mem_receive hrecv hy)
    mapped := fun key ptr hfind => (w.shared.pending.find_complete _ _ key).symm.trans hfind
    filled := ?_
    tokens := ?_ }
  · intro ptr p hp
    by_cases hptr : ptr = x.op
    · subst hptr
      rw [hobjects] at hp
      split at hp
      · obtain ⟨p₀, hp₀, rfl⟩ := map_eq_some_iff.mp hp
        have hp₀' := hown.object_of_ack hx hp₀
        refine .inr ⟨x, hprocessed, rfl, ?_, ?_⟩
        all_goals
          rw [hp₀']
          rfl
      · exact hown.filled _ p hp
    · rw [hother ptr hptr] at hp
      exact hown.filled ptr p hp
  · intro op
    have hcount := Channels.countP_receive hrecv fun y => y.2.op == op
    unfold SyncState.tokens
    by_cases hop : op = x.op
    · subst hop
      rw [hcount]
      simp only [beq_self_eq_true, if_true, map_nil, sum_nil]
      split_ifs <;> omega
    · unfold isDone
      rw [hcount, hother op hop]
      simp only [map_nil, sum_nil]
      omega

theorem Owned.serve (hi : w.threads[i]? = some (.serve conn :: rest))
    (h : exec e w.shared (.serve conn) = some (s', todo)) : Owned (w.proceed i s' (todo ++ rest)) := by
  obtain ⟨⟨⟨op, call⟩, requests⟩, hrecv, heq⟩ := map_eq_some_iff.mp h
  cases heq
  generalize hx :
    (⟨op, call, (handle e w.shared.varStore call).2, held w.shared.varStore call⟩ : Processed) = x
  have hnew := hown.requests _ (Channels.mem_of_receive hrecv)
  have hmono : ∀ y ∈ w.shared.processed, y ∈ w.shared.processed ++ [x] :=
    fun y hy => mem_append_left _ hy
  refine hown.of_exec hi { hown.ends (.serve conn) with
    requests := fun y hy => hown.requests y (Channels.mem_receive hrecv hy)
    acks := forall_mem_append.mpr ⟨fun y hy => ⟨(hown.acks y hy).1, hmono _ (hown.acks y hy).2⟩, ?_⟩
    filled := fun ptr p hp => (hown.filled ptr p hp).mono hmono
    tokens := ?_
    honest := forall_mem_append.mpr ⟨hown.honest, ?_⟩
    returned := fun r hr => (hown.returned r hr).mono hmono }
  · rw [forall_mem_singleton, ← hx]
    exact ⟨hnew, by simp⟩
  · intro op'
    have hcount := Channels.countP_receive hrecv fun y => y.2.1 == op'
    unfold SyncState.tokens
    rw [hcount, Channels.send, countP_append, countP_singleton]
    simp only [← hx, map_nil, sum_nil]
    omega
  · rw [forall_mem_singleton, ← hx]
    exact honest_handle w.shared.varStore op call

theorem Owned.finish {queued : Bool} {result : Option ℕ}
    (hrefers : (Instr.finish op call queued result).Refers w.shared.calls) :
    w.shared.Belongs (outcome op call queued (result.bind fun ptr => w.shared.pending.objects[ptr]?)) := by
  intro hsuccess
  cases result with
  | none => cases call <;> cases hsuccess
  | some ptr =>
    obtain ⟨rfl, hcall⟩ := hrefers
    rw [calls, List.getElem?_map] at hcall
    obtain ⟨p, hp, rfl⟩ := map_eq_some_iff.mp hcall
    rw [bind_some, hp] at hsuccess ⊢
    rcases hown.filled ptr p hp with hnew | ⟨x, hx, hop, hxcall, hfill⟩
    · -- nothing has arrived
      have hfalse : p.success = false := by rw [hnew]
      exact absurd hsuccess (by simp [outcome, hfalse])
    · have hack : x.ack.success = true := by
        rw [← show p.success = true from hsuccess, hfill]
        rfl
      refine ⟨x, hx, hop, hxcall, hack, ?_⟩
      intro name hname
      have hheld := hown.honest x hx name (hxcall.trans hname) hack
      rw [hheld]
      have hvalue : p.value.getD [] = x.ack.value := by
        rw [hfill]
        show (if x.ack.success && !x.ack.value.isEmpty then some x.ack.value else none).getD [] = _
        rw [hack]
        cases x.ack.value <;> rfl
      have htype : p.typeName = x.ack.typeName := by rw [hfill]; rfl
      show some (x.ack.value, x.ack.typeName) = some (p.value.getD [], p.typeName)
      rw [hvalue, htype]

theorem Owned.exec (hi : w.threads[i]? = some (instr :: rest))
    (hfresh : Fresh w e instr) (h : exec e w.shared instr = some (s', todo)) :
    Owned (w.proceed i s' (todo ++ rest)) := by
  have hrefers := hown.threads.head hi
  cases instr with
  | emplace call => exact hown.emplace hfresh hi h
  | submit op call =>
    have hbase : Leaves w (.submit op call) w.shared [.waitFor op call !e.registered] :=
      hown.leaves (forall_mem_singleton.mpr hrefers) fun _ => Nat.zero_le _
    simp only [SyncState.exec] at h
    split at h
    · cases h
      refine hown.of_exec hi { hbase with
        outbox := forall_mem_append.mpr ⟨hown.outbox, forall_mem_singleton.mpr hrefers⟩
        tokens := ?_ }
      simp only [SyncState.tokens, Instr.submits, map_cons, map_nil, sum_cons,
        sum_nil, countP_append, countP_singleton, beq_iff_eq]
      omega
    · split at h
      · cases h
        refine hown.of_exec hi { hbase with
          requests := forall_mem_append.mpr ⟨hown.requests, forall_mem_singleton.mpr hrefers⟩
          tokens := ?_ }
        simp only [SyncState.tokens, Channels.send, Instr.submits, map_cons, map_nil,
          sum_cons, sum_nil, countP_append, countP_singleton, beq_iff_eq]
        omega
      · cases h
        exact hown.of_exec hi hbase
  | waitFor op call queued =>
    simp only [SyncState.exec] at h
    split at h
    · next result hresult =>
      cases h
      refine hown.of_exec hi (hown.leaves (forall_mem_singleton.mpr ?_) fun _ => le_rfl)
      cases result with
      | none => trivial
      | some ptr =>
        have hfind := (w.shared.pending.waitEnter_eq_some hresult).1
        exact ⟨hown.ptr_eq hrefers hfind, hrefers.1⟩
    · cases h
      exact hown.of_exec hi (hown.leaves (forall_mem_singleton.mpr hrefers) fun _ => le_rfl)
  | waiting op call queued =>
    obtain ⟨⟨pending, result⟩, hwake, heq⟩ := map_eq_some_iff.mp h
    cases heq
    obtain ⟨ptr, hfind, ⟨rfl, rfl, -⟩ | ⟨rfl, rfl, -⟩⟩ := w.shared.pending.waitWake_cases hwake
    · refine hown.of_exec hi (hown.leaves (forall_mem_singleton.mpr ?_) fun _ => le_rfl)
      exact ⟨hown.ptr_eq hrefers hfind, hrefers.1⟩
    · refine hown.of_exec hi { hown.leaves (forall_mem_singleton.mpr ?_) fun _ => le_rfl with
        mapped := fun key ptr hfind => find_of_erase hfind }
      trivial
  | erase op call queued result =>
    cases h
    refine hown.of_exec hi { hown.leaves (forall_mem_singleton.mpr ?_) fun _ => le_rfl with
      mapped := fun key ptr hfind => find_of_erase hfind }
    cases result with
    | none => trivial
    | some ptr => exact hrefers
  | finish op call queued result =>
    cases h
    exact hown.of_exec hi { hown.ends _ with
      returned := forall_mem_append.mpr ⟨hown.returned, forall_mem_singleton.mpr (hown.finish hrefers)⟩ }
  | replay =>
    simp only [SyncState.exec] at h
    split at h
    · cases h
      exact hown.of_exec hi (hown.ends _)
    · next x outbox houtbox =>
      cases h
      refine hown.of_exec hi { hown.ends .replay with
        outbox := fun y hy => hown.outbox y (houtbox ▸ mem_cons_of_mem x hy)
        requests := ?_
        tokens := ?_ }
      · split
        · refine forall_mem_append.mpr ⟨hown.requests, forall_mem_singleton.mpr ?_⟩
          exact hown.outbox x (houtbox ▸ mem_cons_self)
        · exact hown.requests
      · intro op'
        simp only [SyncState.tokens, houtbox, countP_cons, map_nil, sum_nil, Instr.submits]
        split
        · rw [Channels.send, countP_append, countP_singleton]
          dsimp only
          omega
        · omega
  | deliver conn => exact hown.deliver hi h
  | serve conn => exact hown.serve hi h
  | others store | reconnect =>
    cases h
    exact hown.of_exec hi { hown.ends _ with }
  | lose conn =>
    cases h
    refine hown.of_exec hi { hown.ends (.lose conn) with
      requests := fun x hx => hown.requests x (Channels.mem_drop hx)
      acks := fun x hx => hown.acks x (Channels.mem_drop hx)
      tokens := ?_ }
    intro op'
    have hrequests := Channels.countP_drop w.shared.requests conn fun x => x.2.1 == op'
    have hacks := Channels.countP_drop w.shared.acks conn fun x => x.2.op == op'
    simp only [SyncState.tokens, map_nil, sum_nil]
    omega

end step

/-! ### Acknowledgements belong to their request -/

/-- The worker at its first call, with the variables the master holds by then. -/
def init (store : Table String (Bytes × String)) : SyncWorld := { shared := { varStore := store } }

theorem owned_init (store : Table String (Bytes × String)) : Owned (init store) where
  outbox := nofun
  requests := nofun
  acks := nofun
  threads := nofun
  mapped := nofun
  filled := nofun
  tokens := fun op => by simp [init, World.weigh, tokens, isDone]
  honest := nofun
  returned := nofun

/-- **Acknowledgements belong to their request**, in every interleaving in which a call is only made
while nothing of its name is under way: what returns success was processed successfully, and
`get_var_sync` returns the value the master held when it processed the request. -/
theorem acks_belong {store : Table String (Bytes × String)} {as : List (Action Outside Call)}
    {w : SyncWorld} (hok : syncCalls.Meets (Threaded.atInstr Fresh) (init store) as)
    (h : run syncCalls.step (init store) as = some w) :
    ∀ r ∈ w.shared.returned, w.shared.Belongs r := by
  have hown : Owned w := by
    refine Threaded.plain_run_meets (I := Owned) ?_ ?_ (owned_init store) hok h
    · intro w g hown
      refine { hown with threads := hown.threads.call ?_, tokens := ?_ }
      · intro instr hinstr
        cases g <;> rw [mem_singleton.mp hinstr] <;> trivial
      · intro op
        rw [World.weigh_call]
        cases g <;> exact hown.tokens op
    · intro w i e instr rest s todo hown hi hfresh hexec
      exact hown.exec hi hfresh hexec
  exact hown.returned

instance (w : SyncWorld) (e : Outside) : DecidablePred (Fresh w e) := fun instr => by
  cases instr <;> (dsimp only [Fresh, World.All]; infer_instance)

/-- A variable is set and read back over connection 1. -/
def setThenGet : List (Action Outside Call) :=
  [.call (.call (.setVar "db:x" [7] "int")), .step 0 {}, .step 0 {}, .step 0 {},
    .call (.serve 1), .step 1 {}, .call (.deliver 1), .step 2 {}, .step 0 {}, .step 0 {}, .step 0 {},
    .call (.call (.getVar "db:x")), .step 3 {}, .step 3 {}, .step 3 {},
    .call (.serve 1), .step 4 {}, .call (.deliver 1), .step 5 {}, .step 3 {}, .step 3 {}, .step 3 {}]

theorem acks_belong_setThenGet : ∃ w, run syncCalls.step (init ∅) setThenGet = some w ∧
    w.shared.returned.map (fun r => (r.op, r.success, r.value)) = [(0, true, none), (1, true, some [7])] ∧
    ∀ r ∈ w.shared.returned, w.shared.Belongs r := by
  have hmeets : syncCalls.Meets (Threaded.atInstr Fresh) (init ∅) setThenGet :=
    Threaded.meets_of_decide (by decide +kernel)
  exact exists_and_of_decide (by decide +kernel) fun w hrun _ => acks_belong hmeets hrun

/-- The master holds 7 for the variable.  A `get_var_sync` gives up before it is answered, and the
variable is set to 9; then the answer to the `get_var_sync` comes. -/
def lateAck : List (Action Outside Call) :=
  [.call (.call (.getVar "db:x")), .step 0 {}, .step 0 {}, .step 0 {}, .step 0 { timedOut := true },
    .step 0 {}, .step 0 {},
    .call (.call (.setVar "db:x" [9] "int")), .step 1 {}, .step 1 {}, .step 1 {},
    .call (.serve 1), .step 2 {}, .call (.deliver 1), .step 3 {}, .step 1 {}, .step 1 {}, .step 1 {}]

/-- **A late acknowledgement answers another call**: `set_var_sync` returns success on the answer to the
`get_var_sync` before it, while the master, when it comes to the request, rejects it. -/
theorem ack_of_another_call : ∃ w w' : SyncWorld,
    run syncCalls.step (init ((∅ : Table String (Bytes × String)).insert "db:x" ([7], "int"))) lateAck =
      some w ∧
    (∃ r ∈ w.shared.returned, r.call = .setVar "db:x" [9] "int" ∧ r.success = true ∧
      ¬w.shared.Belongs r) ∧
    run syncCalls.step w [.call (.serve 1), .step 4 {}] = some w' ∧
    w'.shared.processed.map (fun x => (x.op, x.ack.success)) = [(0, true), (1, false)] := by
  have hseen : (run syncCalls.step
      (init ((∅ : Table String (Bytes × String)).insert "db:x" ([7], "int"))) lateAck).bind
      (fun w => (run syncCalls.step w [.call (.serve 1), .step 4 {}]).map fun w' =>
        (w.shared.returned, w.shared.processed.map fun x => x.op,
          w'.shared.processed.map fun x => (x.op, x.ack.success))) =
      some ([⟨0, .getVar "db:x", false, none, "", "", .unknown⟩,
        ⟨1, .setVar "db:x" [9] "int", true, some [7], "int", "", .unknown⟩], [0],
        [(0, true), (1, false)]) := by
    decide +kernel
  obtain ⟨w, hrun, hw⟩ := bind_eq_some_iff.mp hseen
  obtain ⟨w', hrun', hw'⟩ := map_eq_some_iff.mp hw
  simp only [Prod.mk.injEq] at hw'
  obtain ⟨hreturned, hops, hprocessed⟩ := hw'
  refine ⟨w, w', hrun, ⟨⟨1, .setVar "db:x" [9] "int", true, some [7], "int", "", .unknown⟩, ?_, rfl, rfl,
    ?_⟩, hrun', hprocessed⟩
  · rw [hreturned]
    simp
  · intro hbelongs
    obtain ⟨x, hx, hop, -⟩ := hbelongs rfl
    have hmem : x.op ∈ w.shared.processed.map fun x => x.op := mem_map_of_mem hx
    rw [hops, hop] at hmem
    simp at hmem

end SyncState

end Fly.Agent
