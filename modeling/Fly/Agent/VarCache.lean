import Fly.Agent.SyncCalls
import Mathlib.Data.List.FinRange

/-!
# The variable caches of the workers

The master holds the variables of a database; a worker keeps those it has set or read in a cache of its
own.  A variable is written once, and removing it is announced to all workers, who drop it from their
caches.  `set_var` and `get_var` put the value into the cache after their request has been answered, on
the thread of the task, while the announcement is handled by the worker's reactor.

One database, its instance on the master and on each of `n` workers; every worker has one connection to
the master, which hands messages over in order.

* `VarState`, `VarState.exec` — the tasks and the reactor of every worker, and the master's handlers,
  which run side by side for different workers;
* `Unprocessed`, `Coherent` — an announcement has not been handled yet; every cached value is the master's
  or is about to be dropped;
* `Timely` — a value is cached while it is still the master's or its announcement is still to come, and
  the variables are not removed all at once behind the back of a cache;
* `coherent_iff_timely` — **the caches are coherent all along a run exactly if all its steps are timely**,
  and no stored value is ever replaced; `stale_after_removal` — the run in which a value is cached after
  its removal has been announced.
-/

namespace Fly.Agent

open Fly.Lib List Option Threaded

abbrev VarEntry := Bytes × String

inductive VarRequest where
  | sync (call : SyncCall)
  | remove (name : String)
  deriving DecidableEq

inductive VarReply where
  | ack (key : RpcKey) (ack : SyncAck)
  | broadcast (name : String) (isModificationReject : Bool)
  deriving DecidableEq

structure VarWorker where
  pending : PendingRpcMap RpcKey PendingOp := {}
  /-- `var_store_` of the worker's instance of the database -/
  cache : Table String VarEntry := ∅

structure VarState (n : ℕ) where
  /-- `var_store_` of the master's instance -/
  store : Table String VarEntry := ∅
  workers : Fin n → VarWorker := fun _ => {}
  toMaster : Channels VarRequest := []
  toWorker : Channels VarReply := []
  /-- the connections whose handler is running -/
  serving : List (Fin n) := []

namespace VarState

variable {n : ℕ}

structure Outside where
  frozen : Bool := false
  accepts : Bool := true
  timedOut : Bool := false
  dbFound : Bool := true

inductive Instr (n : ℕ) where
  -- a task of worker `k`
  | setVar (k : Fin n) (name : String) (value : Bytes) (typeName : String)
  | getVar (k : Fin n) (name : String)
  | removeVar (k : Fin n) (name : String)
  | emplace (k : Fin n) (call : SyncCall)
  | send (k : Fin n) (request : VarRequest)
  | waitFor (k : Fin n) (call : SyncCall)
  | waiting (k : Fin n) (call : SyncCall)
  | erase (k : Fin n) (call : SyncCall) (result : Option ℕ)
  | finish (k : Fin n) (call : SyncCall) (result : Option ℕ)
  | cache (k : Fin n) (name : String) (entry : VarEntry)
  -- the reactor of worker `k`
  | deliver (k : Fin n)
  -- the master's handlers of the connection of worker `k`
  | receive (k : Fin n)
  | checkFrozen (k : Fin n) (name : String) (entry : VarEntry)
  | masterSetVar (k : Fin n) (name : String) (entry : VarEntry)
  | rejectSet (k : Fin n) (name : String)
  | masterGetVar (k : Fin n) (name : String)
  | masterRemoveVar (name : String)
  | broadcastVar (name : String) (isModificationReject : Bool)
  | sendBroadcast (k : Fin n) (name : String) (isModificationReject : Bool)
  | sendAck (k : Fin n) (name : String) (ack : SyncAck)
  | served (k : Fin n)
  deriving DecidableEq

def setWorker (s : VarState n) (k : Fin n) (f : VarWorker → VarWorker) : VarState n :=
  { s with workers := Function.update s.workers k (f (s.workers k)) }

/-- What the handler of a request does, if the master knows the database and if not. -/
def handler (e : Outside) (k : Fin n) : VarRequest → List (Instr n)
  | .sync (.setVar name value typeName) =>
    if e.dbFound then [.checkFrozen k name (value, typeName)]
    else [.sendAck k name { success := false, errorMessage := "db not found on master" }]
  | .sync (.getVar name) =>
    if e.dbFound then [.masterGetVar k name] else [.sendAck k name { success := false }]
  -- not a request of the variable service
  | .sync (.registerWrite _) => []
  | .remove name => if e.dbFound then [.masterRemoveVar name] else []

def exec (e : Outside) (s : VarState n) : Instr n → Option (VarState n × List (Instr n))
  -- `Database::set_var`, `get_var`, `remove_var`
  | .setVar k name value typeName =>
    some (s, if e.frozen then [] else [.emplace k (.setVar name value typeName)])
  | .getVar k name =>
    some (s, if ((s.workers k).cache.lookup name).isSome then [] else [.emplace k (.getVar name)])
  | .removeVar k name =>
    some (s.setWorker k fun v => { v with cache := v.cache.erase name }, [.send k (.remove name)])
  -- `set_var_sync`, `get_var_sync`
  | .emplace k call =>
    some (s.setWorker k fun v => { v with pending := v.pending.emplace call.key { call := call } },
      [.send k (.sync call), .waitFor k call])
  | .send k request =>
    some (if e.accepts then { s with toMaster := s.toMaster.send k request } else s, [])
  | .waitFor k call =>
    match (s.workers k).pending.waitEnter call.key (·.completed) with
    | some result => some (s, [.erase k call result])
    | none => some (s, [.waiting k call])
  | .waiting k call =>
    ((s.workers k).pending.waitWake call.key (·.completed) e.timedOut).map fun (pending, result) =>
      (s.setWorker k fun v => { v with pending := pending }, [.erase k call result])
  | .erase k call result =>
    some (s.setWorker k fun v => { v with pending := v.pending.erase call.key }, [.finish k call result])
  -- a task caches what it has set, or what it was told
  | .finish k call result =>
    some (s, match result.bind fun ptr => (s.workers k).pending.objects[ptr]? with
      | none => []
      | some p =>
        match call, p.value with
        | .setVar name value typeName, _ =>
          if p.success then [.cache k name (value, typeName)] else []
        | .getVar name, some value => if p.success then [.cache k name (value, p.typeName)] else []
        | _, _ => [])
  | .cache k name entry =>
    some (s.setWorker k fun v => { v with cache := v.cache.insert name entry }, [])
  -- `on_var_ack`, `on_var_broadcast`
  | .deliver k =>
    (s.toWorker.receive k).map fun (reply, toWorker) =>
      ({ s with toWorker := toWorker }.setWorker k fun v =>
        match reply with
        | .ack key ack => { v with pending := v.pending.complete key (.fill ack) }
        | .broadcast name _ => { v with cache := v.cache.erase name }, [])
  -- the master handles the requests of one connection one after another
  | .receive k =>
    if k ∈ s.serving then none
    else
      (s.toMaster.receive k).map fun (request, toMaster) =>
        ({ s with toMaster := toMaster, serving := k :: s.serving }, handler e k request ++ [.served k])
  | .checkFrozen k name entry =>
    some (s, if e.frozen then [.sendAck k name { success := false, errorMessage := "db frozen" }]
      else [.masterSetVar k name entry])
  | .masterSetVar k name entry =>
    if (s.store.lookup name).isSome then some (s, [.rejectSet k name])
    else some ({ s with store := s.store.insert name entry }, [.sendAck k name { success := true }])
  | .rejectSet k name =>
    some (s,
      if e.frozen then [.sendAck k name { success := false, errorMessage := "db frozen" }]
      else [.broadcastVar name true,
        .sendAck k name { success := false, errorMessage := "var already exists (immutable)" }])
  | .masterGetVar k name =>
    some (s, [.sendAck k name (match s.store.lookup name with
      | none => { success := false }
      | some (value, typeName) => { success := true, value := value, typeName := typeName })])
  -- the empty name stands for all variables; the announcement carries the name as it is
  | .masterRemoveVar name =>
    some ({ s with store := if name = "" then ∅ else s.store.erase name }, [.broadcastVar name false])
  | .broadcastVar name reject =>
    some (s, (List.finRange n).map fun k => .sendBroadcast k name reject)
  | .sendBroadcast k name reject =>
    some ({ s with toWorker := s.toWorker.send k (.broadcast name reject) }, [])
  | .sendAck k name ack => some ({ s with toWorker := s.toWorker.send k (.ack (.varOp name) ack) }, [])
  | .served k => some ({ s with serving := s.serving.erase k }, [])

inductive Call (n : ℕ) where
  | setVar (k : Fin n) (name : String) (value : Bytes) (typeName : String)
  | getVar (k : Fin n) (name : String)
  | removeVar (k : Fin n) (name : String)
  | deliver (k : Fin n)
  | receive (k : Fin n)

def program : Call n → List (Instr n)
  | .setVar k name value typeName => [.setVar k name value typeName]
  | .getVar k name => [.getVar k name]
  | .removeVar k name => [.removeVar k name]
  | .deliver k => [.deliver k]
  | .receive k => [.receive k]

end VarState

open VarState

abbrev VarWorld (n : ℕ) := World (VarState n) (VarState.Instr n) Empty

/-- The workers and the master, in any interleaving. -/
def varService (n : ℕ) :
    Threaded (VarState n) (VarState.Instr n) Empty VarState.Outside (VarState.Call n) :=
  .plain program exec

namespace VarState

variable {n : ℕ}

/-! ### Coherence -/

/-- The instruction will announce the variable to worker `k`. -/
def Instr.Announces (k : Fin n) (name : String) : Instr n → Prop
  | .broadcastVar name' _ => name' = name
  | .sendBroadcast k' name' _ => k' = k ∧ name' = name
  | _ => False

/-- A `VarBroadcast` of the variable has not been processed by worker `k`: it is on its way, or the
master is about to send it. -/
def Unprocessed (w : VarWorld n) (k : Fin n) (name : String) : Prop :=
  (∃ reject, (k.val, VarReply.broadcast name reject) ∈ w.shared.toWorker) ∨ w.Has (Instr.Announces k name)

def cached (s : VarState n) (k : Fin n) (name : String) : Option VarEntry :=
  (s.workers k).cache.lookup name

/-- What a worker has cached is what the master holds, or about to be dropped. -/
def Coherent (w : VarWorld n) : Prop :=
  ∀ k name entry, w.shared.cached k name = some entry →
    w.shared.store.lookup name = some entry ∨ Unprocessed w k name

/-- A value is cached while the master holds it or its announcement is still to come; all variables are
removed at once only while the caches are empty or about to be. -/
def Timely (w : VarWorld n) (_ : Outside) : Instr n → Prop
  | .cache k name entry => w.shared.store.lookup name = some entry ∨ Unprocessed w k name
  | .masterRemoveVar name => name = "" → ∀ k name' entry, w.shared.cached k name' = some entry →
      name' ≠ "" → Unprocessed w k name'
  | _ => True

/-! ### What a step does to the caches, the store and the announcements -/

section step

variable {e : Outside} {s s' : VarState n} {todo rest : List (Instr n)} {w : VarWorld n} {i : ℕ}
  {instr : Instr n} {k : Fin n} {name : String} {entry : VarEntry}

theorem cached_setWorker (k' : Fin n) (f : VarWorker → VarWorker) : (s.setWorker k' f).cached k name =
      if k = k' then (f (s.workers k')).cache.lookup name else s.cached k name := by
  unfold cached setWorker
  by_cases hk : k = k'
  · subst hk
    simp
  · rw [if_neg hk]
    simp [Function.update_of_ne hk]

/-- A change of one variable in one cache. -/
theorem cached_setVar (k' : Fin n) (name' : String) {f : VarWorker → VarWorker} {o : Option VarEntry}
    (hf : ∀ v, (f v).cache.lookup name = if name = name' then o else v.cache.lookup name) :
    (s.setWorker k' f).cached k name = if k = k' ∧ name = name' then o else s.cached k name := by
  rw [cached_setWorker, ite_and]
  by_cases hk : k = k'
  · subst hk
    rw [if_pos rfl, if_pos rfl, hf]
    rfl
  · rw [if_neg hk, if_neg hk]

theorem cached_erase (k' : Fin n) (name' : String) :
    (s.setWorker k' fun v => { v with cache := v.cache.erase name' }).cached k name =
      if k = k' ∧ name = name' then none else s.cached k name :=
  cached_setVar k' name' fun v => Table.lookup_erase_eq v.cache name' name

theorem cached_insert (k' : Fin n) (name' : String) (entry' : VarEntry) :
    (s.setWorker k' fun v => { v with cache := v.cache.insert name' entry' }).cached k name =
      if k = k' ∧ name = name' then some entry' else s.cached k name :=
  cached_setVar k' name' fun v => Table.lookup_insert_eq v.cache name' entry' name

/-- A change of the pending calls does not touch the caches. -/
theorem cached_pending (k' : Fin n) (g : VarWorker → PendingRpcMap RpcKey PendingOp) :
    (s.setWorker k' fun v => { v with pending := g v }).cached k name = s.cached k name := by
  rw [cached_setWorker]
  split
  · next hk =>
    subst hk
    rfl
  · rfl

/-- A delivery fills a pending call, or drops the variable it announces. -/
theorem cached_deliver (k' : Fin n) (reply : VarReply) (toWorker : Channels VarReply) :
    (({ s with toWorker := toWorker } : VarState n).setWorker k' fun v =>
      match reply with
      | .ack key ack => { v with pending := v.pending.complete key (.fill ack) }
      | .broadcast name' _ => { v with cache := v.cache.erase name' }).cached k name =
    if k = k' ∧ ∃ reject, reply = .broadcast name reject then none else s.cached k name := by
  cases reply with
  | ack key ack =>
    rw [if_neg]
    · exact cached_pending (s := { s with toWorker := toWorker }) k' _
    · rintro ⟨-, reject, h⟩
      cases h
  | broadcast name' reject' =>
    refine (cached_erase (s := { s with toWorker := toWorker }) k' name').trans ?_
    by_cases h : k = k' ∧ name = name'
    · rw [if_pos h, if_pos ⟨h.1, reject', by rw [h.2]⟩]
    rw [if_neg h, if_neg]
    · rfl
    · rintro ⟨hk, reject, heq⟩
      cases heq
      exact h ⟨hk, rfl⟩

/-- What a step does to the caches, the store and the messages on their way. -/
structure Effect (s s' : VarState n) (instr : Instr n) (todo : List (Instr n)) : Prop where
  /-- only `cache` puts something into a cache -/
  cached (k : Fin n) (name : String) (entry : VarEntry) : s'.cached k name = some entry →
    s.cached k name = some entry ∨ instr = .cache k name entry
  /-- the master's value of a variable only changes when there is none, or in a removal -/
  store (name : String) : s'.store.lookup name = s.store.lookup name ∨ s.store.lookup name = none ∨
    ∃ name', instr = .masterRemoveVar name' ∧ (name' = name ∨ name' = "") ∧
      .broadcastVar name' false ∈ todo
  /-- a message stays on its way until it is delivered -/
  wire {x : ℕ × VarReply} : x ∈ s.toWorker → x ∈ s'.toWorker ∨ ∃ k' toWorker, instr = .deliver k' ∧
    s.toWorker.receive k' = some (x.2, toWorker) ∧ x.1 = k'.val

theorem Effect.of_same (hcached : ∀ k name, s'.cached k name = s.cached k name)
    (hstore : s'.store = s.store) (hwire : s'.toWorker = s.toWorker) : Effect s s' instr todo where
  cached _ _ _ h := .inl ((hcached _ _).symm.trans h)
  store _ := .inl (by rw [hstore])
  wire hx := .inl (hwire ▸ hx)

theorem exec_effect (h : exec e s instr = some (s', todo)) : Effect s s' instr todo := by
  cases instr with
  | cache k' name' entry' =>
    cases h
    refine ⟨fun _ _ _ hcached => ?_, fun _ => .inl rfl, .inl⟩
    rw [cached_insert] at hcached
    split at hcached
    · next heq =>
      cases hcached
      rw [heq.1, heq.2]
      exact .inr rfl
    · exact .inl hcached
  | removeVar k' name' =>
    cases h
    refine ⟨fun _ _ _ hcached => ?_, fun _ => .inl rfl, .inl⟩
    rw [cached_erase, ite_none_left_eq_some] at hcached
    exact .inl hcached.2
  | deliver k' =>
    obtain ⟨⟨reply, toWorker⟩, hrecv, heq⟩ := map_eq_some_iff.mp h
    cases heq
    refine ⟨fun _ _ _ hcached => ?_, fun _ => .inl rfl, fun hx => ?_⟩
    · rw [cached_deliver, ite_none_left_eq_some] at hcached
      exact .inl hcached.2
    · rcases Channels.mem_receive_or hrecv hx with hthis | hrest
      · subst hthis
        exact .inr ⟨k', toWorker, rfl, hrecv, rfl⟩
      · exact .inl hrest
  | masterSetVar k' name' entry' =>
    simp only [exec] at h
    split at h <;> cases h
    · exact .of_same (fun _ _ => rfl) rfl rfl
    rename_i hnone
    refine ⟨fun _ _ _ => .inl, fun name => ?_, .inl⟩
    rw [Bool.not_eq_true, isSome_eq_false_iff, isNone_iff_eq_none] at hnone
    by_cases hname : name = name'
    · exact .inr (.inl (hname ▸ hnone))
    · exact .inl ((Table.lookup_insert_eq s.store name' entry' name).trans (if_neg hname))
  | masterRemoveVar name' =>
    cases h
    refine ⟨fun _ _ _ => .inl, fun name => ?_, .inl⟩
    by_cases hname : name' = name ∨ name' = ""
    · exact .inr (.inr ⟨name', rfl, hname, mem_singleton.mpr rfl⟩)
    · rw [not_or] at hname
      refine .inl ?_
      rw [if_neg hname.2]
      exact (Table.lookup_erase_eq s.store name' name).trans (if_neg fun h => hname.1 h.symm)
  | sendBroadcast k' name' reject | sendAck k' name' ack =>
    cases h
    exact ⟨fun _ _ _ => .inl, fun _ => .inl rfl, fun hx => .inl (mem_append_left _ hx)⟩
  | emplace k' call | erase k' call result =>
    cases h
    exact .of_same (fun _ _ => cached_pending k' _) rfl rfl
  | waiting k' call =>
    obtain ⟨⟨pending, result⟩, -, heq⟩ := map_eq_some_iff.mp h
    cases heq
    exact .of_same (fun _ _ => cached_pending k' _) rfl rfl
  | send k' request | waitFor k' call =>
    simp only [exec] at h
    split at h <;> cases h
    all_goals exact .of_same (fun _ _ => rfl) rfl rfl
  | receive k' =>
    simp only [exec] at h
    split at h
    · cases h
    · obtain ⟨⟨request, toMaster⟩, -, heq⟩ := map_eq_some_iff.mp h
      cases heq
      exact .of_same (fun _ _ => rfl) rfl rfl
  | _ =>
    cases h
    exact .of_same (fun _ _ => rfl) rfl rfl

/-- An announcement stays unprocessed until the worker has dropped the variable. -/
theorem Unprocessed.exec (hun : Unprocessed w k name) (hi : w.threads[i]? = some (instr :: rest))
    (h : exec e w.shared instr = some (s', todo)) :
    Unprocessed (w.proceed i s' (todo ++ rest)) k name ∨
      s'.cached k name = none := by
  rcases hun with ⟨reject, hwire⟩ | hhas
  · rcases (exec_effect h).wire hwire with hstill | ⟨k', toWorker, rfl, hrecv, hk⟩
    · exact .inl (.inl ⟨reject, hstill⟩)
    have hk' : k = k' := Fin.ext hk
    subst hk'
    simp only [exec, hrecv, map_some, Option.some.injEq, Prod.mk.injEq] at h
    obtain ⟨rfl, -⟩ := h
    exact .inr ((cached_erase (s := { w.shared with toWorker := toWorker }) k name).trans
      (if_pos ⟨rfl, rfl⟩))
  · refine .inl ?_
    rcases hhas.set hi todo s' w.holder with hannounces | hhas'
    · cases instr with
      | broadcastVar name' reject =>
        cases h
        refine .inr (World.has_set hi (mem_append_left rest ?_)
          (show Instr.Announces k name (.sendBroadcast k name' reject) from ⟨rfl, hannounces⟩)
          _ w.holder)
        exact mem_map.mpr ⟨k, mem_finRange k, rfl⟩
      | sendBroadcast k' name' reject =>
        cases h
        obtain ⟨rfl, rfl⟩ := hannounces
        exact .inl ⟨reject, mem_append_right _ (mem_singleton.mpr rfl)⟩
      | _ => cases hannounces
    · exact .inr hhas'

/-- **A timely step keeps the caches coherent.** -/
theorem Coherent.exec (hcoh : Coherent w) (hi : w.threads[i]? = some (instr :: rest))
    (hok : Timely w e instr) (h : exec e w.shared instr = some (s', todo)) :
    Coherent (w.proceed i s' (todo ++ rest)) := by
  intro k name entry hcached
  -- what is announced stays announced, since the entry is still there
  have hstill : Unprocessed w k name →
      Unprocessed (w.proceed i s' (todo ++ rest)) k name := by
    intro hun
    rcases hun.exec hi h with hun' | hnone
    · exact hun'
    · rw [hcached] at hnone
      cases hnone
  have hheld : w.shared.store.lookup name = some entry ∨ Unprocessed w k name := by
    rcases (exec_effect h).cached _ _ _ hcached with hold | rfl
    · exact hcoh k name entry hold
    · exact hok
  rcases hheld with hstore | hun
  · rcases (exec_effect h).store name with hsame | hnone | ⟨name', rfl, hname, hmem⟩
    · exact .inl (hsame.trans hstore)
    · rw [hstore] at hnone
      cases hnone
    right
    by_cases heq : name' = name
    · exact .inr (World.has_set hi (mem_append_left rest hmem) heq s' w.holder)
    have hempty : name' = "" := hname.resolve_left heq
    have hold : w.shared.cached k name = some entry := by
      rcases (exec_effect h).cached _ _ _ hcached with hold | hinstr
      · exact hold
      · cases hinstr
    exact hstill (hok hempty k name entry hold fun hname => heq (hempty.trans hname.symm))
  · exact .inr (hstill hun)

/-- An announcement that a step did not make was there before. -/
theorem Unprocessed.of_exec (hi : w.threads[i]? = some (instr :: rest))
    (hwire : s'.toWorker = w.shared.toWorker) (htodo : ∀ op ∈ todo, ¬Instr.Announces k name op)
    (hun : Unprocessed (w.proceed i s' (todo ++ rest)) k name) :
    Unprocessed w k name := by
  rcases hun with ⟨reject, hmem⟩ | hhas
  · exact .inl ⟨reject, hwire ▸ hmem⟩
  · rcases World.Has.of_set hi hhas with ⟨op, hop, hannounces⟩ | hold
    · exact absurd hannounces (htodo op hop)
    · exact .inr hold

/-- **A step that keeps the caches coherent is timely.** -/
theorem timely_of_coherent (hi : w.threads[i]? = some (instr :: rest))
    (h : exec e w.shared instr = some (s', todo))
    (hcoh : Coherent (w.proceed i s' (todo ++ rest))) :
    Timely w e instr := by
  cases instr with
  | cache k name entry =>
    cases h
    have hcached : (w.shared.setWorker k fun v => { v with cache := v.cache.insert name entry }).cached
        k name = some entry := (cached_insert k name entry).trans (if_pos ⟨rfl, rfl⟩)
    rcases hcoh k name entry hcached with hstore | hun
    · exact .inl hstore
    · exact .inr (hun.of_exec hi rfl fun op hop => by cases hop)
  | masterRemoveVar name =>
    intro hempty k name' entry hcached hne
    cases h
    rcases hcoh k name' entry hcached with hstore | hun
    · rw [if_pos hempty] at hstore
      cases hstore
    · refine hun.of_exec hi rfl ?_
      intro op hop hannounces
      rw [mem_singleton.mp hop] at hannounces
      exact hne (hannounces.symm.trans hempty)
  | _ => trivial

end step

/-! ### Whole runs -/

/-- The master with the variables it holds, and workers that have cached nothing. -/
def init (n : ℕ) (store : Table String VarEntry) : VarWorld n := { shared := { store := store } }

/-- Between two states of a run in which the master holds different values for a variable, the variable
is removed. -/
def NeverReplaced (w₀ : VarWorld n) (as : List (Action Outside (Call n))) : Prop :=
  ∀ pre mid post u u' name entry entry', as = pre ++ mid ++ post →
    run (varService n).step w₀ pre = some u → run (varService n).step u mid = some u' →
    u.shared.store.lookup name = some entry → u'.shared.store.lookup name = some entry' →
    entry' ≠ entry →
    ∃ mid₁ j e mid₂ t name', mid = mid₁ ++ .step j e :: mid₂ ∧
      run (varService n).step u mid₁ = some t ∧ t.next j = some (.inl (.masterRemoveVar name')) ∧
      (name' = name ∨ name' = "")

theorem never_replaced (w₀ : VarWorld n) (as : List (Action Outside (Call n))) :
    NeverReplaced w₀ as := by
  intro pre mid post u u' name entry entry' _ _ hmid hold hnew hne
  by_contra hnot
  -- then no step of the stretch removes the variable, and each keeps its value
  have hmeets : (varService n).Meets (atInstr fun _ _ instr =>
      ∀ name', instr = .masterRemoveVar name' → ¬(name' = name ∨ name' = "")) u mid := by
    intro mid₁ j e mid₂ t x hsplit ht hnext
    cases x with
    | inr c => exact c.elim
    | inl instr =>
      intro name' hinstr hname
      subst hinstr
      exact hnot ⟨mid₁, j, e, mid₂, t, name', hsplit, ht, hnext, hname⟩
  have hkept : u'.shared.store.lookup name = some entry := by
    refine plain_run_meets (I := fun w => w.shared.store.lookup name = some entry) ?_ ?_ hold hmeets hmid
    · intro w g h
      exact h
    · intro w i e instr rest s todo hstore _ hnone hexec
      rcases (exec_effect hexec).store name with hsame | hempty | ⟨name', hinstr, hname, -⟩
      · exact hsame.trans hstore
      · rw [hstore] at hempty
        cases hempty
      · exact absurd hname (hnone name' hinstr)
  rw [hnew, Option.some.injEq] at hkept
  exact hne hkept

/-- **The caches are coherent all along a run exactly if all its steps are timely**; and no value is ever
replaced without a removal. -/
theorem coherent_iff_timely {store : Table String VarEntry} {as : List (Action Outside (Call n))}
    {w : VarWorld n} (h : run (varService n).step (init n store) as = some w) :
    ((∀ pre post u, as = pre ++ post → run (varService n).step (init n store) pre = some u →
        Coherent u) ∧ NeverReplaced (init n store) as) ↔
      (varService n).Meets (atInstr Timely) (init n store) as := by
  rw [and_iff_left (never_replaced _ as)]
  refine plain_always_iff (I := Coherent) ?_ ?_ ?_ h
  · intro w g hcoh k name entry hcached
    rcases hcoh k name entry hcached with hstore | hwire | hhas
    · exact .inl hstore
    · exact .inr (.inl hwire)
    · exact .inr (.inr (hhas.call _))
  · intro w i e instr rest s todo hcoh hi hexec
    exact ⟨timely_of_coherent hi hexec, fun hok => hcoh.exec hi hok hexec⟩
  · exact nofun

instance (w : VarWorld n) (k : Fin n) (name : String) : Decidable (Unprocessed w k name) := by
  have hannounces : DecidablePred (Instr.Announces k name) := by
    intro instr
    unfold Instr.Announces
    split <;> infer_instance
  exact inferInstanceAs (Decidable ((∃ reject, _ ∈ w.shared.toWorker) ∨
    ∃ thread ∈ w.threads, ∃ op ∈ thread, Instr.Announces k name op))

/-- A check of `Timely` for runs that never remove all variables at once. -/
def timely (w : VarWorld n) (_ : Outside) : Instr n ⊕ Empty → Bool
  | .inl (.cache k name entry) =>
    decide (w.shared.store.lookup name = some entry ∨ Unprocessed w k name)
  | .inl (.masterRemoveVar name) => decide (name ≠ "")
  | _ => true

theorem timely_sound (w : VarWorld n) (e : Outside) (x : Instr n ⊕ Empty) (h : timely w e x = true) :
    atInstr Timely w e x := by
  cases x with
  | inr c => exact c.elim
  | inl instr =>
    cases instr with
    | cache k name entry =>
      have hheld := of_decide_eq_true (p := w.shared.store.lookup name = some entry ∨ Unprocessed w k name) h
      exact hheld
    | masterRemoveVar name =>
      intro hempty
      exact absurd hempty (of_decide_eq_true h)
    | _ => trivial

/-- Worker 0 sets a variable, worker 1 reads it, and worker 0 removes it again. -/
def setReadRemove : List (Action Outside (Call 2)) :=
  .call (.setVar 0 "x" [7] "int") :: .replicate 4 (.step 0 {}) ++
  .call (.receive 0) :: .replicate 5 (.step 1 {}) ++
  .call (.deliver 0) :: .step 2 {} :: .replicate 4 (.step 0 {}) ++
  .call (.getVar 1 "x") :: .replicate 4 (.step 3 {}) ++
  .call (.receive 1) :: .replicate 4 (.step 4 {}) ++
  .call (.deliver 1) :: .step 5 {} :: .replicate 4 (.step 3 {}) ++
  .call (.removeVar 0 "x") :: .replicate 2 (.step 6 {}) ++
  .call (.receive 0) :: .replicate 6 (.step 7 {}) ++ [.call (.deliver 1), .step 8 {}]

theorem coherent_iff_timely_setReadRemove : ∃ w,
    run (varService 2).step (init 2 ∅) setReadRemove = some w ∧ w.shared.cached 1 "x" = none ∧
    (∀ pre post u, setReadRemove = pre ++ post →
      run (varService 2).step (init 2 ∅) pre = some u → Coherent u) ∧
    NeverReplaced (init 2 ∅) setReadRemove := by
  have hmeets : (varService 2).Meets (atInstr Timely) (init 2 ∅) setReadRemove :=
    meets_of_check timely_sound (by decide +kernel)
  exact exists_and_of_decide (by decide +kernel) fun w hrun _ => (coherent_iff_timely hrun).mpr hmeets

/-- Worker 0 asks for a variable and is answered; worker 1 removes it; worker 0 handles the answer and the
announcement, and only then the task goes on. -/
def readAcrossRemoval : List (Action Outside (Call 2)) :=
  .call (.getVar 0 "x") :: replicate 4 (.step 0 {}) ++
  .call (.receive 0) :: replicate 4 (.step 1 {}) ++
  .call (.removeVar 1 "x") :: replicate 2 (.step 2 {}) ++
  .call (.receive 1) :: replicate 6 (.step 3 {}) ++
  [.call (.deliver 0), .step 4 {}, .call (.deliver 0), .step 5 {}, .call (.deliver 1), .step 6 {}] ++
  replicate 4 (.step 0 {})

/-- **A value is cached after its removal was announced**: worker 0 holds the value, the master holds
none, and no announcement is left. -/
theorem stale_after_removal : ∃ w : VarWorld 2, run (varService 2).step
      (init 2 ((∅ : Table String VarEntry).insert "x" ([7], "int"))) readAcrossRemoval = some w ∧
    w.shared.cached 0 "x" = some ([7], "int") ∧ w.shared.store.lookup "x" = none ∧
    w.shared.toWorker = [] ∧ (∀ thread ∈ w.threads, thread = []) ∧ ¬Coherent w := by
  obtain ⟨w, hrun, hcached, hstore, hwire, hended⟩ := exists_of_decide (o := run (varService 2).step
      (init 2 ((∅ : Table String VarEntry).insert "x" ([7], "int"))) readAcrossRemoval)
    (p := fun w => w.shared.cached 0 "x" = some ([7], "int") ∧ w.shared.store.lookup "x" = none ∧
      w.shared.toWorker = [] ∧ ∀ thread ∈ w.threads, thread = []) (by decide +kernel)
  refine ⟨w, hrun, hcached, hstore, hwire, hended, ?_⟩
  intro hcoh
  rcases hcoh 0 "x" _ hcached with hheld | ⟨reject, hmem⟩ | ⟨thread, hthread, op, hop, -⟩
  · rw [hstore] at hheld
    cases hheld
  · rw [hwire] at hmem
    cases hmem
  · rw [hended thread hthread] at hop
    cases hop

end VarState

end Fly.Agent
