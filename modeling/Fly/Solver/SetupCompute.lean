import Mathlib.Data.Nat.Notation
import Mathlib.Logic.Function.Basic
import Mathlib.Order.Lattice

/-!
# The setup of the subdomains (`ras_graph_dynamic.py`)

`solve_ras_graph_dynamic` asks for `min(nsd, max_concurrent_compute)` workers and gives them the subdomains
in turn.  `setup_compute_task` restarts the only RPC server of its worker and starts a service loop on the
request queue of the agent.  A second subdomain on a worker thus closes the port of the first, and both loops
then take from one queue.

* `setupCompute` — one task; `Reached` — the tasks of a generation in any order;
* `Served` — the address of a subdomain is answered by its own loop and no other;
* `served_iff` — when `setup_check` starts, every subdomain is served iff no worker has two.
-/

namespace Fly.Solver

open List Function

/-- The arguments of `_serve_loop`: the cached solver of a matrix and a subdomain, and the record of the
service in a generation. -/
structure ServeLoop where
  solverKey : String × ℕ
  sharedKey : String × ℕ
  sd : ℕ

structure WorkerAgent where
  /-- The port of `peer_rpc_server_`. -/
  server : Option ℕ := none
  /-- The loops that wait for a request of `peer_rpc_incoming_`. -/
  consumers : List ServeLoop := []

/-- The loops are woken by the connections of the server, and before `setup_check` there are none. -/
def WorkerAgent.stopPeerRpc (a : WorkerAgent) : WorkerAgent := { a with server := none }

def WorkerAgent.startPeerRpcListen (a : WorkerAgent) (port : ℕ) : WorkerAgent :=
  if a.server.isSome then a else { a with server := some port }

structure State where
  workers : ℕ → WorkerAgent := fun _ => {}
  /-- The address objects of the generation. -/
  addr : ℕ → Option ℕ := fun _ => none

def workerCount (nsd maxConcurrentCompute : ℕ) : ℕ :=
  if maxConcurrentCompute = 0 then nsd else min nsd maxConcurrentCompute

/-- The subdomains whose attributes are requested for worker `w`. -/
def attrs (nsd nWorkers w : ℕ) : List ℕ := (range nsd).filter (· % nWorkers = w)

/-- A task, the worker it runs on and the port the system gives it. -/
structure Setup where
  sd : ℕ
  worker : ℕ
  port : ℕ

variable (matrixRef gen : String)

def serveLoop (sd : ℕ) : ServeLoop where
  solverKey := (matrixRef, sd)
  sharedKey := (gen, sd)
  sd := sd

def setupCompute (s : State) (e : Setup) : State where
  workers :=
    let a := (s.workers e.worker).stopPeerRpc.startPeerRpcListen e.port
    update s.workers e.worker { a with consumers := a.consumers ++ [serveLoop matrixRef gen e.sd] }
  addr := update s.addr e.sd (some e.port)

/-- The states after the tasks of `tasks`, the last one first.  A task runs on a worker with its attribute,
and the system gives it a port on which no other worker listens. -/
inductive Reached (nsd nWorkers : ℕ) : List Setup → State → Prop
  | start : Reached nsd nWorkers [] {}
  | setup {tasks : List Setup} {s : State} (e : Setup) : Reached nsd nWorkers tasks s →
      e.sd ∈ attrs nsd nWorkers e.worker → (∀ e' ∈ tasks, e'.sd ≠ e.sd) →
      (∀ w, w ≠ e.worker → (s.workers w).server ≠ some e.port) →
      Reached nsd nWorkers (e :: tasks) (setupCompute matrixRef gen s e)

/-- The loops that may take a request sent to `port`. -/
def State.Answers (s : State) (port : ℕ) (loop : ServeLoop) : Prop :=
  ∃ w, (s.workers w).server = some port ∧ loop ∈ (s.workers w).consumers

/-- The address of `sd` is a port that listens, and its requests are taken by the loop of `sd` alone. -/
def Served (s : State) (sd : ℕ) : Prop :=
  ∃ port, s.addr sd = some port ∧ ∀ loop, s.Answers port loop ↔ loop = serveLoop matrixRef gen sd

/-- What every run leaves: each task on the worker of its subdomain, its loop there, and no port used twice.
Where every subdomain has a worker of its own, no task stops the server of another. -/
structure Placed (nsd nWorkers : ℕ) (tasks : List Setup) (s : State) : Prop where
  worker : ∀ e ∈ tasks, e.sd < nsd ∧ e.worker = e.sd % nWorkers
  task : ∀ sd, s.addr sd ≠ none → ∃ e ∈ tasks, e.sd = sd
  consumers : ∀ w loop, loop ∈ (s.workers w).consumers ↔
    ∃ e ∈ tasks, e.worker = w ∧ loop = serveLoop matrixRef gen e.sd
  ports : ∀ w w' port, (s.workers w).server = some port → (s.workers w').server = some port → w = w'
  listens : nWorkers = nsd → ∀ e ∈ tasks,
    s.addr e.sd = some e.port ∧ (s.workers e.worker).server = some e.port

variable {matrixRef gen} {nsd nWorkers : ℕ} {tasks : List Setup} {s : State}

theorem setupCompute_workers (e : Setup) (w : ℕ) : (setupCompute matrixRef gen s e).workers w =
    if w = e.worker then ⟨some e.port, (s.workers w).consumers ++ [serveLoop matrixRef gen e.sd]⟩
    else s.workers w := by
  by_cases hw : w = e.worker
  · subst hw
    rw [if_pos rfl]
    exact update_self ..
  · rw [if_neg hw]
    exact update_of_ne hw ..

theorem setupCompute_addr (e : Setup) (sd : ℕ) : (setupCompute matrixRef gen s e).addr sd =
    if sd = e.sd then some e.port else s.addr sd :=
  update_apply ..

theorem mem_attrs {sd w : ℕ} : sd ∈ attrs nsd nWorkers w ↔ sd < nsd ∧ w = sd % nWorkers := by
  simp [attrs, eq_comm]

theorem worker_eq (h : ∀ e ∈ tasks, e.sd < nsd ∧ e.worker = e.sd % nWorkers) (hone : nWorkers = nsd) :
    ∀ e ∈ tasks, e.worker = e.sd := by
  intro e he
  obtain ⟨hlt, hw⟩ := h e he
  rwa [hone, Nat.mod_eq_of_lt hlt] at hw

theorem Reached.placed (h : Reached matrixRef gen nsd nWorkers tasks s) :
    Placed matrixRef gen nsd nWorkers tasks s := by
  induction h with
  | start => exact ⟨nofun, fun sd h => (h rfl).elim, fun w loop => by simp, nofun, nofun⟩
  | setup e _ hattr hnew hfree ih =>
    have hworker : ∀ e' ∈ e :: _, e'.sd < nsd ∧ e'.worker = e'.sd % nWorkers :=
      forall_mem_cons.mpr ⟨mem_attrs.mp hattr, ih.worker⟩
    refine ⟨hworker, fun sd haddr => ?_, fun w loop => ?_, fun w w' port => ?_, fun hone => ?_⟩
    · by_cases hsd : sd = e.sd
      · exact ⟨e, mem_cons_self, hsd.symm⟩
      · obtain ⟨e', he', rfl⟩ := ih.task sd (by rwa [setupCompute_addr, if_neg hsd] at haddr)
        exact ⟨e', mem_cons_of_mem _ he', rfl⟩
    · rw [setupCompute_workers]
      by_cases hw : w = e.worker
      · subst hw
        simp [ih.consumers, or_comm]
      · simp [hw, ih.consumers, Ne.symm hw]
    · rw [setupCompute_workers, setupCompute_workers]
      by_cases hw : w = e.worker <;> by_cases hw' : w' = e.worker
      · exact fun _ _ => hw.trans hw'.symm
      · rw [if_pos hw, if_neg hw']
        rintro ⟨⟩ h
        exact (hfree w' hw' h).elim
      · rw [if_neg hw, if_pos hw']
        rintro h ⟨⟩
        exact (hfree w hw h).elim
      · rw [if_neg hw, if_neg hw']
        exact ih.ports w w' port
    · have heq := forall_mem_cons.mp (worker_eq hworker hone)
      refine forall_mem_cons.mpr ⟨?_, fun e' he' => ?_⟩
      · rw [setupCompute_addr, setupCompute_workers, if_pos rfl, if_pos rfl]
        exact ⟨rfl, rfl⟩
      · have hne : e'.worker ≠ e.worker := by
          rw [heq.2 e' he', heq.1]
          exact hnew e' he'
        rw [setupCompute_addr, setupCompute_workers, if_neg (hnew e' he'), if_neg hne]
        exact ih.listens hone e' he'

/-- **Every subdomain is served iff no worker has two.**  For every order of the tasks and all ports the
system may give them, when all the addresses that `setup_check` waits for are there. -/
theorem served_iff {maxConcurrentCompute : ℕ} (hnsd : 1 ≤ nsd) (hmax : 1 ≤ maxConcurrentCompute)
    (h : Reached matrixRef gen nsd (workerCount nsd maxConcurrentCompute) tasks s)
    (haddr : ∀ sd < nsd, s.addr sd ≠ none) :
    (∀ sd < nsd, Served matrixRef gen s sd) ↔ nsd ≤ maxConcurrentCompute := by
  have hp := h.placed
  rw [workerCount, if_neg (Nat.ne_of_gt hmax)] at hp
  constructor
  · intro hserved
    by_contra hlt
    -- the subdomains 0 and `maxConcurrentCompute` share worker 0
    rw [min_eq_right (Nat.le_of_not_le hlt)] at hp
    obtain ⟨port, -, hanswers⟩ := hserved 0 hnsd
    obtain ⟨w, hport, hloop⟩ := (hanswers _).mpr rfl
    obtain ⟨e, he, rfl, heq⟩ := (hp.consumers w _).mp hloop
    obtain ⟨e', he', hsd⟩ := hp.task maxConcurrentCompute (haddr _ (Nat.lt_of_not_le hlt))
    have hzero : 0 = e.sd := congrArg ServeLoop.sd heq
    have hworker : e'.worker = e.worker := by
      rw [(hp.worker e he).2, (hp.worker e' he').2, ← hzero, hsd, Nat.mod_self, Nat.zero_mod]
    have hsame := (hanswers _).mp ⟨_, hport, (hp.consumers _ _).mpr ⟨e', he', hworker, rfl⟩⟩
    have hfirst : e'.sd = 0 := congrArg ServeLoop.sd hsame
    omega
  · intro hone sd hsd
    have hn : min nsd maxConcurrentCompute = nsd := min_eq_left hone
    obtain ⟨e, he, rfl⟩ := hp.task sd (haddr sd hsd)
    obtain ⟨haddr, hserver⟩ := hp.listens hn e he
    refine ⟨e.port, haddr, fun loop => ⟨?_, ?_⟩⟩
    · rintro ⟨w, hport, hloop⟩
      obtain rfl := hp.ports _ _ _ hport hserver
      obtain ⟨e', he', hworker, rfl⟩ := (hp.consumers _ _).mp hloop
      rw [worker_eq hp.worker hn e he, worker_eq hp.worker hn e' he'] at hworker
      rw [hworker]
    · rintro rfl
      exact ⟨_, hserver, (hp.consumers _ _).mpr ⟨e, he, rfl, rfl⟩⟩

/-- Subdomain 0 on worker 0, and then subdomain 1 on worker `w`. -/
def pairState (w : ℕ) : State :=
  setupCompute "A" "g" (setupCompute "A" "g" {} ⟨0, 0, 5000⟩) ⟨1, w, 5001⟩

theorem reached_pair {w n : ℕ} (h₀ : 0 ∈ attrs 2 n 0) (h₁ : 1 ∈ attrs 2 n w) :
    Reached "A" "g" 2 n [⟨1, w, 5001⟩, ⟨0, 0, 5000⟩] (pairState w) := by
  refine .setup _ (.setup _ .start h₀ nofun nofun) h₁ (by simp) fun w' _ => ?_
  rw [setupCompute_workers]
  by_cases hw : w' = 0 <;> simp [hw]

theorem served_iff_two : (∀ sd < 2, Served "A" "g" (pairState 1) sd) ↔ 2 ≤ 2 :=
  served_iff (by decide) (by decide) (reached_pair (by decide) (by decide)) (by decide)

/-- Two subdomains on one worker: nobody listens at the address of the first. -/
theorem first_port_closed : Reached "A" "g" 2 (workerCount 2 1) [⟨1, 0, 5001⟩, ⟨0, 0, 5000⟩] (pairState 0) ∧
    (∀ sd < 2, (pairState 0).addr sd ≠ none) ∧ (pairState 0).addr 0 = some 5000 ∧
      ∀ w, ((pairState 0).workers w).server ≠ some 5000 := by
  refine ⟨reached_pair (by decide) (by decide), by decide, rfl, fun w => ?_⟩
  rw [pairState, setupCompute_workers, setupCompute_workers]
  by_cases hw : w = 0 <;> simp [hw]

end Fly.Solver
