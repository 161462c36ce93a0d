import Fly.Lib.Table

/-!
# The worker table of the master (`task/cpp/worker_manager.{h,cpp}`)

One record per worker id that ever registered; a worker that dies or exits keeps its record and only
changes its status.  Every method runs under the mutex of the class, so each is one function here.  The
clock is a parameter (`now`, in seconds).

* `getIdleWorkers` — the candidates of the scheduler: idle, connected as far as the master knows (not in
  a disconnect grace period), and not a pure storage node.
* `registerWorker` / `registerWorkerReconnect` — the first forgets everything the record said, the second
  keeps a `BUSY` status together with the task it names.

A record of the source repeats the id it is filed under; the table key is used for it here.
-/

namespace Fly.Task

open Fly.Lib Option Table

inductive WorkerStatus where
  | idle
  | busy
  | dead
  | exited
  deriving DecidableEq, Repr

/-- `worker_status_alive`: terminal statuses are excluded by listing the live ones. -/
def WorkerStatus.alive : WorkerStatus → Bool
  | idle => true
  | busy => true
  | dead => false
  | exited => false

inductive WorkerRole where
  | hybrid
  | storageOnly
  deriving DecidableEq, Repr

/-- What a worker says about itself when it registers. -/
structure WorkerIdentity where
  address : String := ""
  port : ℕ := 0
  capabilities : List String := []
  hostname : String := ""
  ipAddress : String := ""
  role : WorkerRole := .hybrid
  deriving DecidableEq

structure WorkerInfo extends WorkerIdentity where
  status : WorkerStatus
  lastHeartbeat : ℕ
  currentTaskId : ℕ
  inGrace : Bool := false
  deriving DecidableEq

/-- The test of `get_idle_workers`. -/
def WorkerInfo.schedulable (info : WorkerInfo) : Bool :=
  info.status == .idle && !info.inGrace && info.role != .storageOnly

structure WorkerManager where
  workers : Table ℕ WorkerInfo := ∅
  deriving DecidableEq

namespace WorkerManager

variable (m : WorkerManager) (id : ℕ)

/-! ### Updates -/

/-- The record a registration creates from nothing. -/
def freshInfo (now : ℕ) (identity : WorkerIdentity) : WorkerInfo :=
  { identity with status := .idle, lastHeartbeat := now, currentTaskId := 0 }

/-- `register_worker`: overwrites whatever record there was, also that of a busy worker. -/
def registerWorker (now id : ℕ) (identity : WorkerIdentity) : WorkerManager :=
  { m with workers := m.workers.insert id (freshInfo now identity) }

/-- `register_worker_reconnect`: ends the grace period; a busy worker stays busy with its task, any
other becomes idle. -/
def registerWorkerReconnect (now id : ℕ) (identity : WorkerIdentity) : WorkerManager :=
  match m.workers.lookup id with
  | none => m.registerWorker now id identity
  | some info =>
    { m with
      workers := m.workers.insert id
        { identity with
          status := if info.status ≠ .busy then .idle else info.status
          lastHeartbeat := now
          currentTaskId := info.currentTaskId
          inGrace := false } }

/-- Every other update leaves an unknown worker unknown. -/
def update (f : WorkerInfo → WorkerInfo) : WorkerManager :=
  { m with workers := modify m.workers id f }

def updateWorkerStatus (status : WorkerStatus) : WorkerManager :=
  m.update id fun info => { info with status := status }

def setWorkerGrace (inGrace : Bool) : WorkerManager :=
  m.update id fun info => { info with inGrace := inGrace }

def recordHeartbeat (now id : ℕ) : WorkerManager :=
  m.update id fun info => { info with lastHeartbeat := now }

def assignTask (id task : ℕ) : WorkerManager :=
  m.update id fun info => { info with status := .busy, currentTaskId := task }

/-- `complete_task`: whatever the worker was doing, and whatever its status. -/
def completeTask : WorkerManager :=
  m.update id fun info => { info with status := .idle, currentTaskId := 0 }

/-- `cancel_task_if_assigned`: only a busy worker that names this very task becomes idle. -/
def cancelTaskIfAssigned (id task : ℕ) : WorkerManager :=
  m.update id fun info =>
    if info.currentTaskId = task ∧ info.status = .busy then
      { info with status := .idle, currentTaskId := 0 }
    else info

/-! ### Queries -/

/-- `get_all_workers`, in the (unspecified) order of the table. -/
def getAllWorkers : List (ℕ × WorkerInfo) := pairs m.workers

/-- `get_idle_workers`: ascending ids. -/
def getIdleWorkers : List ℕ :=
  ((m.getAllWorkers.filter fun w => w.2.schedulable).map Prod.fst).insertionSort (· ≤ ·)

def workerStatusSnapshot : Option WorkerStatus := (m.workers.lookup id).map (·.status)

/-- Whether a worker with these capabilities offers all the required ones. -/
def hasAll (capabilities required : List String) : Bool := required.all (· ∈ capabilities)

/-- `has_worker_with_all_capabilities`: any recorded worker counts, a dead one as well. -/
def hasWorkerWithAllCapabilities (required : List String) : Bool :=
  required.isEmpty || m.getAllWorkers.any fun w => hasAll w.2.capabilities required

/-! ### What the updates and queries see -/

variable {m id} {identity : WorkerIdentity} {now v : ℕ} {f : WorkerInfo → WorkerInfo}

theorem mem_getIdleWorkers :
    id ∈ m.getIdleWorkers ↔ ∃ info, m.workers.lookup id = some info ∧ info.schedulable = true := by
  simp only [getIdleWorkers, getAllWorkers, List.mem_insertionSort, List.mem_map, List.mem_filter,
    Prod.exists, mem_pairs]
  constructor
  · rintro ⟨id, info, hmem, rfl⟩
    exact ⟨info, hmem⟩
  · rintro ⟨info, hmem⟩
    exact ⟨id, info, hmem, rfl⟩

theorem lookup_update (id : ℕ) (f : WorkerInfo → WorkerInfo) (k : ℕ) : (m.update id f).workers.lookup k =
      if k = id then (m.workers.lookup id).map f else m.workers.lookup k :=
  lookup_modify m.workers id f k

theorem lookup_registerWorker (now id : ℕ) (identity : WorkerIdentity) (k : ℕ) :
    (m.registerWorker now id identity).workers.lookup k =
      if k = id then some (freshInfo now identity) else m.workers.lookup k :=
  lookup_insert_eq m.workers id _ k

theorem lookup_registerWorkerReconnect_of_ne {k : ℕ}
    (hk : k ≠ id) : (m.registerWorkerReconnect now id identity).workers.lookup k =
      m.workers.lookup k := by
  unfold registerWorkerReconnect
  split
  · rw [lookup_registerWorker, if_neg hk]
  · exact (lookup_insert_eq m.workers id _ k).trans (if_neg hk)

theorem inGrace_registerWorkerReconnect {info : WorkerInfo}
    (h : (m.registerWorkerReconnect now id identity).workers.lookup id = some info) :
    info.inGrace = false := by
  unfold registerWorkerReconnect at h
  split at h
  · rw [lookup_registerWorker, if_pos rfl] at h
    exact some.inj h ▸ rfl
  · rw [lookup_insert_eq, if_pos rfl] at h
    exact some.inj h ▸ rfl

/-! ### Who becomes schedulable -/

theorem mem_getIdleWorkers_update (h : v ∈ (m.update id f).getIdleWorkers) :
    v ∈ m.getIdleWorkers ∨
      v = id ∧ ∃ info, m.workers.lookup id = some info ∧ (f info).schedulable = true := by
  obtain ⟨info, hinfo, hsched⟩ := mem_getIdleWorkers.mp h
  rw [lookup_update] at hinfo
  split at hinfo
  case isTrue hv =>
    obtain ⟨old, hold, rfl⟩ := map_eq_some_iff.mp hinfo
    exact .inr ⟨hv, old, hold, hsched⟩
  case isFalse => exact .inl (mem_getIdleWorkers.mpr ⟨info, hinfo, hsched⟩)

/-- An update after which no record is schedulable that was not before. -/
theorem mem_getIdleWorkers_of_update (hf : ∀ info, (f info).schedulable = true → info.schedulable = true)
    (h : v ∈ (m.update id f).getIdleWorkers) : v ∈ m.getIdleWorkers := by
  rcases mem_getIdleWorkers_update h with hold | ⟨rfl, info, hinfo, hsched⟩
  · exact hold
  · exact mem_getIdleWorkers.mpr ⟨info, hinfo, hf info hsched⟩

theorem not_mem_getIdleWorkers_assignTask (id task : ℕ) : id ∉ (m.assignTask id task).getIdleWorkers := by
  intro h
  obtain ⟨info, hinfo, hsched⟩ := mem_getIdleWorkers.mp h
  rw [assignTask, lookup_update, if_pos rfl] at hinfo
  obtain ⟨old, -, rfl⟩ := map_eq_some_iff.mp hinfo
  simp [WorkerInfo.schedulable] at hsched

theorem mem_getIdleWorkers_registerWorker
    (h : v ∈ (m.registerWorker now id identity).getIdleWorkers) : v ∈ m.getIdleWorkers ∨ v = id := by
  obtain ⟨info, hinfo, hsched⟩ := mem_getIdleWorkers.mp h
  rw [lookup_registerWorker] at hinfo
  split at hinfo
  case isTrue hv => exact .inr hv
  case isFalse => exact .inl (mem_getIdleWorkers.mpr ⟨info, hinfo, hsched⟩)

/-- Reconnecting makes nobody schedulable but the worker itself, and not if it is busy. -/
theorem mem_getIdleWorkers_registerWorkerReconnect
    (h : v ∈ (m.registerWorkerReconnect now id identity).getIdleWorkers) :
    v ∈ m.getIdleWorkers ∨ v = id ∧ m.workerStatusSnapshot id ≠ some .busy := by
  by_cases hv : v = id
  · refine .inr ⟨hv, fun hbusy => ?_⟩
    obtain ⟨info, hinfo, hsched⟩ := mem_getIdleWorkers.mp h
    obtain ⟨old, hold, hstatus⟩ := map_eq_some_iff.mp hbusy
    rw [registerWorkerReconnect, hold] at hinfo
    rw [lookup_insert_eq, if_pos hv, some.injEq] at hinfo
    rw [← hinfo, WorkerInfo.schedulable] at hsched
    simp [hstatus] at hsched
  · obtain ⟨info, hinfo, hsched⟩ := mem_getIdleWorkers.mp h
    rw [lookup_registerWorkerReconnect_of_ne hv] at hinfo
    exact .inl (mem_getIdleWorkers.mpr ⟨info, hinfo, hsched⟩)

end WorkerManager

end Fly.Task
