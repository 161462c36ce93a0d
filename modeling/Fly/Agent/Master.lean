import Fly.Agent.Liveness
import Fly.Lib.Threads
import Fly.Task.Scheduler
import Fly.Task.TaskManager

/-!
# The task handling of the master (`agent/cpp/master_agent.cpp`)

The master keeps a task in three places, each with a mutex of its own: the dependency graph, the task
table and the worker table; the connection tables have a fourth.  `schedule_mutex_` is held around the
compound changes of graph and task table.  Handlers run on several threads, so between two locked
sections of a handler anything can happen.

A handler is a program of the library of threads: an instruction is a locked section of the source, or a
single access to one of the tables.  The sections under `schedule_mutex_` that only touch the graph and
the task table are one step, since both are changed under that mutex alone (but for
`restart_failed_tasks`, and the marks of the graph, which move no task in or out).  The scheduling pass
of `schedule_tasks` is a section of many steps (`Pass`): it reads the worker table and the connections
while other threads change them.  The checks of `on_worker_register` against an earlier connection are one
step too: they only decide whether the registration goes on, and clear the entries of that connection.
Registrations, disconnects, exits and probe answers share one lane in the source, apart from the lanes
of the other messages; here they may interleave with each other as well.

What the data service, the configuration, the clock and the network answer is part of the step
(`Outside`).  In particular the choice of `schedule_next` is: it may be any task of the ready list and
any worker of the idle list that were read before (`pickTask_admissible`).

* `Master` — the tables; `unfinished` is not in the source: the assignments sent to workers that were
  neither reported nor re-queued since;
* `Instr.exec`, `Pass.inside` — what the instructions and the scheduling pass do;
* `Handler` — the entry points; `masterAgent` — the whole.

The contents of messages, the data service, metrics and the persisted failure records are left out.
-/

namespace Fly.Agent

open Fly.Lib Fly.Task

structure Master where
  graph : DependencyGraph := {}
  metadata : TaskManager := {}
  links : Liveness := {}
  unfinished : List (ℕ × ℕ) := []

/-- What the outside supplies at a step. -/
structure Outside where
  clock : ℕ → Now := fun _ => ⟨0, 0⟩
  seconds : ℤ := 0
  nowMs : ℕ := 0
  tie : ℕ → ℕ := id
  localityOn : Bool := false
  hint : List (ℕ × ℤ) := []
  decision : Option (ℕ × ℕ) := none
  failUnscheduleable : Bool := false
  streaming : Bool := true
  reconnectGrace : ℤ := 30
  probes : List Bool := []
  heartbeatTimeout : ℕ := 120
  takeover : Bool := false
  lost : List String := []
  fastExit : Bool := false

/-- The part of `TaskCompleteMessage` and `TaskFailedMessage` that is looked at. -/
structure Report where
  taskId : ℕ
  workerId : ℕ
  isInternal : Bool := false
  deriving DecidableEq

namespace Master

variable (s : Master)

def withManager (manager : WorkerManager) : Master :=
  { s with links := { s.links with manager := manager } }

/-! ### The compound changes -/

/-- `create_task` and `add_task` of `submit_task`. -/
def enterTask (clock : ℕ → Now) (id : ℕ) (spec : TaskSubmissionSpec) : Option Master :=
  (s.metadata.createTask id spec).bind fun metadata =>
    (s.graph.addTask clock id spec.inputs spec.requirements).map fun graph =>
      { s with metadata := metadata, graph := graph }

def completeTask (e : Outside) (id : ℕ) : Master :=
  { s with
    graph := s.graph.removeTask id
    metadata := s.metadata.updateTaskStatus e.nowMs e.tie id .completed }

/-- `fail_task` together with `remove_task`, in whatever order. -/
def failTask (e : Outside) (id : ℕ) (error : String) : Master :=
  { s with
    graph := s.graph.removeTask id
    metadata := s.metadata.failTask e.nowMs e.tie id error }

/-- The section of `handle_worker_death` that queues a task again. -/
def requeueTask (clock : ℕ → Now) (worker id : ℕ) (spec : TaskSubmissionSpec) : Option Master :=
  ((s.graph.removeTask id).addTask clock id spec.inputs spec.requirements).map fun graph =>
    { s with
      graph := graph
      metadata := s.metadata.unassignTask id
      unfinished := s.unfinished.erase (id, worker) }

/-- A `TaskAssignMessage` leaves for the worker. -/
def sendAssign (id worker : ℕ) : Master := { s with unfinished := (id, worker) :: s.unfinished }

/-- A report of the worker about the task has arrived. -/
def noteReport (r : Report) : Master :=
  { s with unfinished := s.unfinished.erase (r.taskId, r.workerId) }

/-- The stale test of the report handlers: the task is assigned to somebody else. -/
def isStale (r : Report) : Bool :=
  match s.metadata.getTask r.taskId with
  | some info => info.assignedWorkerId != 0 && info.assignedWorkerId != r.workerId
  | none => false

/-- The workers `check_all_workers` finds silent for too long; the subtraction wraps around. -/
def silentWorkers (e : Outside) (exempt : List ℕ) : List ℕ :=
  (s.links.manager.getAllWorkers.filter fun w =>
    w.2.status.alive && !exempt.contains w.1 && decide (e.heartbeatTimeout <
        (e.seconds.toNat + 2 ^ 64 - w.2.lastHeartbeat) % 2 ^ 64)).map Prod.fst

end Master

/-! ### The scheduling pass -/

/-- Where `schedule_tasks` is while it holds `schedule_mutex_`.  `results` are the decisions made so far,
each a task with its worker, `todo` what is left of a list. -/
inductive Pass where
  -- schedule_all_available
  | readReady (results : List (ℕ × ℕ))
  | readIdle (ready : List ℕ) (results : List (ℕ × ℕ))
  | choose (ready idle : List ℕ) (results : List (ℕ × ℕ))
  | claim (id worker : ℕ) (results : List (ℕ × ℕ))
  | remove (id worker : ℕ) (results : List (ℕ × ℕ))
  -- assign_task_to_worker, for each result
  | assign (todo : List (ℕ × ℕ))
  | send (id worker : ℕ) (todo : List (ℕ × ℕ))
  | record (id worker : ℕ) (todo : List (ℕ × ℕ))
  -- dependencies that can never be met
  | readPending
  | checkPending (pending : List ℕ)
  | failUnresolvable (todo : List ℕ)
  -- capabilities nobody has
  | readSwitch
  | findDeadlocked (hasRunning : Bool) (todo deadlocked : List ℕ)
  | failDeadlocked (todo : List ℕ)

def bracketed (items : List String) : String := "[" ++ String.intercalate "," items ++ "]"

/-- One step of the pass; `none` in the second place ends it and releases the mutex. -/
def Pass.inside (e : Outside) (s : Master) : Pass → Option (Master × Option Pass)
  | .readReady results =>
    let ready := s.graph.getReadyTasks
    some (s, some (if ready.isEmpty then .assign results else .readIdle ready results))
  | .readIdle ready results =>
    let idle := s.links.manager.getIdleWorkers
    some (s, some (if idle.isEmpty then .assign results else .choose ready idle results))
  | .choose ready idle results =>
    match e.decision with
    | none => some (s, some (.assign results))
    | some (id, worker) =>
      if id ∈ ready ∧ worker ∈ idle ∧ worker ≠ 0 then some (s, some (.claim id worker results))
      else none
  | .claim id worker results =>
    some (s.withManager (s.links.manager.assignTask worker id), some (.remove id worker results))
  | .remove id worker results =>
    some ({ s with graph := s.graph.removeTask id }, some (.readReady (results ++ [(id, worker)])))
  | .assign [] => some (s, some .readPending)
  | .assign ((id, worker) :: todo) =>
    match s.links.workerToConn.lookup worker with
    | none => some (s, some (.assign todo))
    | some _ => some (s, some (.send id worker todo))
  | .send id worker todo => some (s.sendAssign id worker, some (.record id worker todo))
  | .record id worker todo =>
    some ({ s with metadata := s.metadata.assignTask id worker }, some (.assign todo))
  | .readPending =>
    let pending := s.graph.getPendingTasks
    some (s, some (if pending.isEmpty then .readSwitch else .checkPending pending))
  | .checkPending pending =>
    some (s, some (if s.graph.getReadyTasks.isEmpty && !s.metadata.hasTasksWithStatus .running then
      .failUnresolvable pending else .readSwitch))
  | .failUnresolvable [] => some (s, some .readSwitch)
  | .failUnresolvable (id :: todo) =>
    let error := "Unresolvable data dependencies: " ++ bracketed (s.graph.getTaskDependencies id)
    some (s.failTask e id error, some (.failUnresolvable todo))
  | .readSwitch =>
    some (s, if e.failUnscheduleable then
      some (.findDeadlocked (s.metadata.hasTasksWithStatus .running) s.graph.getReadyTasks [])
      else none)
  | .findDeadlocked _ [] deadlocked => some (s, some (.failDeadlocked deadlocked))
  | .findDeadlocked hasRunning (id :: todo) deadlocked =>
    let requirements := s.graph.getTaskRequirements id
    let skipped := requirements.capabilities.isEmpty ||
      Ieee.le Ieee.zero requirements.timeoutSeconds || hasRunning ||
      s.links.manager.hasWorkerWithAllCapabilities requirements.capabilities
    some (s, some (.findDeadlocked hasRunning todo
      (if skipped then deadlocked else deadlocked ++ [id])))
  | .failDeadlocked [] => some (s, none)
  | .failDeadlocked (id :: todo) =>
    let error := "No worker with required capabilities: " ++
      bracketed (s.graph.getTaskRequirements id).capabilities
    some (s.failTask e id error, some (.failDeadlocked todo))

/-! ### The instructions -/

/-- One locked section or table access of a handler, with the local variables it needs. -/
inductive Instr where
  -- submit_task, restart_failed_tasks
  | enterTask (id : ℕ) (spec : TaskSubmissionSpec)
  | forgetTask (id : ℕ)
  -- schedule_tasks
  | scheduleTasks
  | computeLocalityHints
  | setLocalityHint (id : ℕ)
  | beginPass
  -- on_task_complete, on_task_failed
  | onTaskComplete (r : Report) (writtenObjects : List String)
  | onTaskFailed (r : Report) (error : String) (dirtyObjects : List String)
  | completeWorker (worker : ℕ)
  | completeTask (id : ℕ)
  | failTask (id : ℕ) (error : String)
  | markDataReady (path : String)
  | markDataRemoved (path : String)
  -- on_worker_register
  | onWorkerRegister (conn worker : ℕ) (identity : WorkerIdentity)
  | bindConn (conn worker : ℕ)
  | endGrace (worker : ℕ) (identity : WorkerIdentity)
  | enrollWorker (inGrace : Bool) (worker : ℕ) (identity : WorkerIdentity)
  -- on_disconnect
  | onDisconnect (conn : ℕ)
  | replayDeferredRegister (worker : ℕ)
  | classifyDisconnect (worker : ℕ)
  | openGrace (worker : ℕ) (deadline : ℤ)
  | setWorkerGrace (worker : ℕ)
  -- handle_worker_exit
  | handleWorkerExit (worker : ℕ)
  | recordExit (worker : ℕ)
  | failIfRunning (id : ℕ)
  -- handle_worker_death
  | handleWorkerDeath (worker : ℕ)
  | recordDeath (worker : ℕ)
  | recoverTasks (worker : ℕ) (tasks : List ℕ)
  | readTask (worker id : ℕ)
  | requeueTask (worker id : ℕ) (spec : TaskSubmissionSpec)
  | tryStorageTakeover
  -- fail_orphan_data_objects
  | failOrphanDataObjects
  | readRunning (lost : List String)
  | readPending (lost : List String) (running : List ℕ)
  | checkOrphan (lost : List String) (id : ℕ)
  -- on_heartbeat, heartbeat_check_loop
  | onHeartbeat (worker : ℕ)
  | readStatus (worker : ℕ)
  | reviveWorker (worker : ℕ)
  | heartbeatCheckLoop
  | readGrace
  | checkAllWorkers (exempt : List ℕ)
  | timeOutWorker (worker : ℕ)
  | checkGraceDeadlines
  | checkDupRegisterDeadlines
  -- WORKER_PROBE_ACK, WORKER_EXIT, the shutdown of one worker
  | onWorkerProbeAck (worker : ℕ)
  | onWorkerExit (worker : ℕ)
  | shutdownWorker (worker : ℕ)
  -- on_backup_request, send_merge_task
  | onBackupRequest (worker id : ℕ)
  | readBackupConn (worker id : ℕ)
  | claimWorker (merge : Bool) (worker id : ℕ)
  | sendMergeTask (worker id : ℕ)
  | cancelTask (worker id : ℕ)
  | sendAssign (worker id : ℕ)
  -- stop_impl
  | startDrain (fast : Bool)
  | awaitDrain
  | failRunning
  | markShutdown

namespace Instr

/-- The sections under `schedule_mutex_`; all other instructions go without it. -/
def free : Instr → Bool
  | enterTask .. => false
  | beginPass => false
  | completeTask .. => false
  | failTask .. => false
  | recordExit .. => false
  | failIfRunning .. => false
  | recordDeath .. => false
  | requeueTask .. => false
  | claimWorker .. => false
  | _ => true

/-- What an instruction does: the tables afterwards, and what its thread does next. -/
def exec (e : Outside) (s : Master) : Instr → Option (Outcome Master Instr Pass)
  | enterTask id spec => (s.enterTask e.clock id spec).map fun s => .done s []
  | forgetTask id => some (.done { s with metadata := s.metadata.removeTask id } [])
  | scheduleTasks =>
    some (.done s (if s.links.draining then []
      else if e.localityOn then [computeLocalityHints, beginPass] else [beginPass]))
  | computeLocalityHints => some (.done s (s.graph.getReadyTasks.map setLocalityHint))
  | setLocalityHint id =>
    some (.done (if (s.graph.getTaskDependencies id).isEmpty then s
      else { s with graph := s.graph.setTaskLocalityHint id e.hint }) [])
  | beginPass => some (.enter (.readReady []))
  | onTaskComplete r written =>
    some (.done (s.noteReport r) (if s.isStale r then []
      else [completeWorker r.workerId] ++
        (if r.isInternal then []
          else (if e.streaming then [] else written.map markDataReady) ++ [completeTask r.taskId]) ++
        [scheduleTasks]))
  | onTaskFailed r error dirty =>
    some (.done (s.noteReport r) (if s.isStale r then []
      else [completeWorker r.workerId, failTask r.taskId error] ++ dirty.map markDataRemoved ++
        [scheduleTasks]))
  | completeWorker worker =>
    some (.done (s.withManager (s.links.manager.completeTask worker)) [])
  | completeTask id => some (.done (s.completeTask e id) [])
  | failTask id error => some (.done (s.failTask e id error) [])
  | markDataReady path =>
    some (.done { s with graph := s.graph.markDataReady e.clock path } [])
  | markDataRemoved path =>
    some (.done { s with graph := s.graph.markDataRemoved path } [])
  | onWorkerRegister conn worker identity =>
    let admitted := Liveness.admitRegister e.seconds conn worker identity e.probes s.links
    some (.done { s with links := admitted.2 } (if admitted.1 then
      [bindConn conn worker, endGrace worker identity, scheduleTasks] else []))
  | bindConn conn worker => some (.done { s with links := s.links.bind conn worker } [])
  | endGrace worker identity =>
    some (.done { s with links := s.links.endGrace worker }
      [enrollWorker (decide (worker ∈ s.links.graceDeadlines)) worker identity])
  | enrollWorker inGrace worker identity =>
    some (.done { s with links := s.links.enroll e.seconds inGrace worker identity } [])
  | onDisconnect conn =>
    match s.links.connToWorker.lookup conn with
    | none => some (.done s [])
    | some worker =>
      some (.done { s with links := s.links.dropConn conn worker } (if worker = 0 then []
        else [replayDeferredRegister worker, classifyDisconnect worker]))
  | replayDeferredRegister worker =>
    let links := { s.links with dupConfirmedAlive := s.links.dupConfirmedAlive.erase worker }
    match links.deferredRegisters.lookup worker with
    | none => some (.done { s with links := links } [])
    | some dr =>
      some (.done { s with links := links.rejectDeferredRegister worker }
        [onWorkerRegister dr.connId worker dr.identity])
  | classifyDisconnect worker =>
    some (.done { s with links := s.links.renew worker }
      (if worker ∈ s.links.shutdownPending ∨ worker ∈ s.links.exitConfirmed then
        [handleWorkerExit worker]
      else if s.links.draining = true ∨ e.reconnectGrace ≤ 0 then [handleWorkerDeath worker]
      else [openGrace worker (e.seconds + e.reconnectGrace), setWorkerGrace worker]))
  | openGrace worker deadline =>
    some (.done { s with links := { s.links with
      graceDeadlines := s.links.graceDeadlines.insert worker deadline } } [])
  | setWorkerGrace worker =>
    some (.done (s.withManager (s.links.manager.setWorkerGrace worker true)) [])
  | handleWorkerExit worker =>
    some (.done { s with links := s.links.endGrace worker } [recordExit worker])
  | recordExit worker =>
    some (.done (s.withManager (s.links.manager.updateWorkerStatus worker .exited))
      ((s.metadata.getTaskIdsByWorker worker).map failIfRunning))
  | failIfRunning id =>
    some (.done (if s.metadata.statusOf id = some .running then
      s.failTask e id "worker exited during shutdown" else s) [])
  | handleWorkerDeath worker =>
    some (.done { s with links := s.links.endGrace worker } [recordDeath worker])
  | recordDeath worker =>
    some (.done (s.withManager (s.links.manager.updateWorkerStatus worker .dead))
      [recoverTasks worker (s.metadata.getTaskIdsByWorker worker)])
  | recoverTasks worker tasks =>
    some (.done s ((if s.links.draining then
        tasks.map fun id => failTask id "Worker disconnected during shutdown"
      else tasks.map (readTask worker) ++ (if tasks.isEmpty then [] else [scheduleTasks])) ++
      [tryStorageTakeover]))
  | readTask worker id =>
    match s.metadata.getTask id with
    | none => some (.done s [])
    | some info => some (.done s [requeueTask worker id info.submission])
  | requeueTask worker id spec =>
    (s.requeueTask e.clock worker id spec).map fun s => .done s []
  | tryStorageTakeover => some (.done s (if e.takeover then [] else [failOrphanDataObjects]))
  | failOrphanDataObjects =>
    some (.done s (if e.lost.isEmpty then []
      else e.lost.map markDataRemoved ++ [readRunning e.lost]))
  | readRunning lost =>
    some (.done s [readPending lost (s.metadata.getTaskIdsByStatus .running)])
  | readPending lost running =>
    some (.done s ((s.graph.getPendingTasks.filter fun id => !running.contains id).map (checkOrphan lost)))
  | checkOrphan lost id =>
    some (.done s (if (s.graph.getTaskDependencies id).any lost.contains then
      [failTask id "data lost: all replicas unavailable (holder worker dead)"] else []))
  | onHeartbeat worker =>
    some (.done (s.withManager (s.links.manager.recordHeartbeat e.seconds.toNat worker))
      [readStatus worker])
  | readStatus worker =>
    some (.done s (match s.links.manager.workerStatusSnapshot worker with
      | some status => if status.alive then [] else [reviveWorker worker]
      | none => []))
  | reviveWorker worker =>
    some (.done (s.withManager (s.links.manager.updateWorkerStatus worker .idle)) [])
  | heartbeatCheckLoop =>
    some (.done s (if s.links.draining then []
      else [readGrace, checkGraceDeadlines, checkDupRegisterDeadlines]))
  | readGrace => some (.done s [checkAllWorkers s.links.graceDeadlines.keys])
  | checkAllWorkers exempt => some (.done s ((s.silentWorkers e exempt).map timeOutWorker))
  | timeOutWorker worker =>
    some (.done (s.withManager (s.links.manager.updateWorkerStatus worker .dead)) [])
  | checkGraceDeadlines => some (.done s ((s.links.expiredGrace e.seconds).map handleWorkerDeath))
  | checkDupRegisterDeadlines =>
    some (.done { s with links := s.links.checkDupRegisterDeadlines e.seconds } [])
  | onWorkerProbeAck worker =>
    some (.done { s with links := s.links.onWorkerProbeAck e.seconds worker } [])
  | onWorkerExit worker =>
    some (.done { s with links := { s.links with
      exitConfirmed := s.links.exitConfirmed.insert worker } } [])
  | shutdownWorker worker =>
    some (.done { s with links := { s.links with
      shutdownPending := s.links.shutdownPending.insert worker } } [])
  | onBackupRequest worker id =>
    -- `select_backup_worker` offers live workers other than the master itself
    some (.done s (match s.links.manager.workerStatusSnapshot worker with
      | some status => if status.alive && worker != 0 then [readBackupConn worker id] else []
      | none => []))
  | readBackupConn worker id =>
    some (.done s (if worker ∈ s.links.workerToConn then [claimWorker false worker id] else []))
  | claimWorker merge worker id =>
    some (.done (s.withManager (s.links.manager.assignTask worker id))
      [if merge then sendMergeTask worker id else sendAssign worker id])
  | sendMergeTask worker id =>
    some (.done s [if (s.links.workerToConn.lookup worker).getD 0 = 0 then cancelTask worker id
      else sendAssign worker id])
  | cancelTask worker id =>
    some (.done (s.withManager (s.links.manager.cancelTaskIfAssigned worker id)) [])
  | sendAssign worker id => some (.done (s.sendAssign id worker) [])
  | startDrain fast =>
    some (.done { s with links := { s.links with draining := true } }
      (if s.links.draining then [] else if fast then [failRunning, markShutdown] else [awaitDrain]))
  | awaitDrain =>
    -- waits for the running tasks, unless a fast exit or the drain timeout cuts it short
    if e.fastExit then some (.done s [failRunning, markShutdown])
    else if s.metadata.hasTasksWithStatus .running then none
    else some (.done s [markShutdown])
  | failRunning =>
    some (.done s ((s.metadata.getTaskIdsByStatus .running).map fun id =>
      failTask id "Master fast exit: task aborted"))
  | markShutdown => some (.done s (s.links.workerToConn.keys.map shutdownWorker))

end Instr

/-! ### The handlers -/

inductive Handler where
  | submitTask (id : ℕ) (spec : TaskSubmissionSpec)
  | restartFailedTasks (records : List (ℕ × TaskSubmissionSpec))
  | scheduleTick
  | taskComplete (r : Report) (writtenObjects : List String)
  | taskFailed (r : Report) (error : String) (dirtyObjects : List String)
  | writeRegister (path : String)
  | removeObject (path : String)
  | workerRegister (conn worker : ℕ) (identity : WorkerIdentity)
  | workerProbeAck (worker : ℕ)
  | workerExit (worker : ℕ)
  | shutdownWorker (worker : ℕ)
  | disconnect (conn : ℕ)
  | heartbeat (worker : ℕ)
  | heartbeatCheck
  | takeoverDeadline
  | backupRequest (worker id : ℕ)
  | mergeTask (worker id : ℕ)
  | stop (fast : Bool)

def Handler.program : Handler → List Instr
  | submitTask id spec => [.enterTask id spec, .scheduleTasks]
  | restartFailedTasks records =>
    records.flatMap fun r => [.forgetTask r.1, .enterTask r.1 r.2, .scheduleTasks]
  | scheduleTick => [.scheduleTasks]
  | taskComplete r written => [.onTaskComplete r written]
  | taskFailed r error dirty => [.onTaskFailed r error dirty]
  | writeRegister path => [.markDataReady path, .scheduleTasks]
  | removeObject path => [.markDataRemoved path]
  | workerRegister conn worker identity => [.onWorkerRegister conn worker identity]
  | workerProbeAck worker => [.onWorkerProbeAck worker]
  | workerExit worker => [.onWorkerExit worker]
  | shutdownWorker worker => [.shutdownWorker worker]
  | disconnect conn => [.onDisconnect conn]
  | heartbeat worker => [.onHeartbeat worker]
  | heartbeatCheck => [.heartbeatCheckLoop]
  | takeoverDeadline => [.failOrphanDataObjects]
  | backupRequest worker id => [.onBackupRequest worker id]
  | mergeTask worker id => [.claimWorker true worker id]
  | stop fast => [.startDrain fast]

def masterAgent : Threaded Master Instr Pass Outside Handler where
  program := Handler.program
  exec := Instr.exec
  free := Instr.free
  inside := Pass.inside

abbrev MasterWorld := World Master Instr Pass

abbrev MasterAction := Action Outside Handler

def MasterWorld.init : MasterWorld where shared := {}

/-- Whatever the reads of `schedule_next` return, its choice is a task of the ready list and a worker of
the idle list. -/
theorem pickTask_admissible {view : TaskScheduler} {seconds : ℤ → Ieee} {now : ℤ}
    {ready idle : List ℕ} (hsorted : idle.Pairwise (· ≤ ·)) {r : ScheduleResult}
    (h : view.pickTask seconds now idle ready = some r) :
    r.taskId ∈ ready ∧ r.workerId ∈ idle ∧ r.workerId ≠ 0 := by
  obtain ⟨hready, hne, -, hselect, -⟩ := TaskScheduler.pickTask_spec h
  exact ⟨hready, (TaskScheduler.selectBestWorker_spec hsorted hselect hne _ rfl).1, hne⟩

/-! ### Pieces of a run -/

/-- Worker 1 registers over connection 11. -/
def registeredRun : List MasterAction :=
  [.call (.workerRegister 11 1 {}), .step 0 {}, .step 0 {}, .step 0 {}, .step 0 {}]

/-- A task is submitted, and the scheduling pass decides to give it to worker 1. -/
def decidedRun (thread id : ℕ) : List MasterAction :=
  [.call (.submitTask id {}), .step thread {}, .step thread {}, .step thread {},
    .step thread {}, .step thread {}, .step thread { decision := some (id, 1) },
    .step thread {}, .step thread {}, .step thread {}]

/-- The assignment is sent and recorded, and the pass ends. -/
def sentRun (thread : ℕ) : List MasterAction :=
  [.step thread {}, .step thread {}, .step thread {}, .step thread {}, .step thread {}, .step thread {}]

/-- Worker 1 has been given task 1. -/
def assignedRun : List MasterAction := registeredRun ++ decidedRun 1 1 ++ sentRun 1

/-- Worker 1 reports that the task is complete. -/
def reportedRun (thread id : ℕ) : List MasterAction :=
  [.call (.taskComplete { taskId := id, workerId := 1 } []),
    .step thread {}, .step thread {}, .step thread {}]

/-- Connection 11 breaks, worker 1 is declared dead at once, and its tasks are read. -/
def diedRun (thread : ℕ) : List MasterAction :=
  [.call (.disconnect 11), .step thread {}, .step thread {}, .step thread { reconnectGrace := 0 },
    .step thread {}, .step thread {}]

end Fly.Agent
