import Fly.Task.DependencyGraph

/-!
# The task table of the master (`task/cpp/task_manager.{h,cpp}`)

One bucket per status holds the records, and `taskStatus` says in which bucket a task is.  The two
always agree; the agreement is part of the value here (`filed`, `found`), so the lookups of the source
that guard against a task missing from its bucket need no case of their own.

Every update files a record under a status (`file`) or takes a task out (`unfile`).  More than
`maxCompletedTasks` finished tasks are not kept: the ones that finished first are forgotten.  `tie`
orders the tasks that finished in the same millisecond; `std::sort` leaves that order open.

* `getTask_file`, `getTask_unfile` — what a lookup sees after an update;
* `getTask_maybeCleanupCompleted` — only finished tasks are forgotten.

`config_`, `created_at_` and `started_at_` are never read by the master's task handling.
-/

namespace Fly.Task

open Fly.Lib List Option AList Table

inductive TaskStatus where
  | pending
  | running
  | completed
  | failed
  | cancelled
  deriving DecidableEq, Repr

/-- A status after which the task is over. -/
def TaskStatus.terminal : TaskStatus → Bool
  | completed => true
  | failed => true
  | _ => false

structure TaskSubmissionSpec where
  name : String := ""
  moduleName : String := ""
  args : List String := []
  inputs : List String := []
  outputs : List String := []
  requiredCapabilities : List String := []
  attributeTimeout : Ieee := .fin (-1)
  priority : ℤ := 10
  writeContextHash : String := ""
  vars : List String := []
  ownerDbPath : String := ""
  deriving DecidableEq

/-- The requirements the graph is told at a submission and at a re-queue. -/
def TaskSubmissionSpec.requirements (spec : TaskSubmissionSpec) : TaskRequirements where
  capabilities := spec.requiredCapabilities
  timeoutSeconds := spec.attributeTimeout
  priority := spec.priority

structure TaskMetadata where
  submission : TaskSubmissionSpec := {}
  status : TaskStatus := .pending
  completedAt : ℕ := 0
  errorMessage : String := ""
  assignedWorkerId : ℕ := 0
  deriving DecidableEq

def maxCompletedTasks : ℕ := 100

structure TaskManager where
  buckets : TaskStatus → Table ℕ TaskMetadata := fun _ => ∅
  taskStatus : Table ℕ TaskStatus := ∅
  /-- what a bucket holds is marked with its status, and the task is known to be there -/
  filed : ∀ status id info, (buckets status).lookup id = some info →
    info.status = status ∧ taskStatus.lookup id = some status := by simp
  /-- a known task is in the bucket of its status -/
  found : ∀ status id, taskStatus.lookup id = some status →
    ∃ info, (buckets status).lookup id = some info := by simp

namespace TaskManager

variable (m : TaskManager) (nowMs : ℕ) (tie : ℕ → ℕ) (id : ℕ)

/-! ### Updates -/

/-- Put a record into the bucket of its status, out of any other. -/
def file (info : TaskMetadata) : TaskManager where
  buckets status :=
    if status = info.status then (m.buckets status).insert id info else (m.buckets status).erase id
  taskStatus := m.taskStatus.insert id info.status
  filed := by
    intro status k info' h
    rw [lookup_insert_eq_some]
    split at h
    case isTrue hst =>
      rcases lookup_insert_eq_some.mp h with ⟨hk, rfl⟩ | ⟨hk, h⟩
      · exact ⟨hst.symm, .inl ⟨hk, hst.symm⟩⟩
      · exact (m.filed status k info' h).imp_right fun hstatus => .inr ⟨hk, hstatus⟩
    case isFalse hst =>
      obtain ⟨hk, h⟩ := lookup_erase_eq_some.mp h
      exact (m.filed status k info' h).imp_right fun hstatus => .inr ⟨hk, hstatus⟩
  found := by
    intro status k h
    rcases lookup_insert_eq_some.mp h with ⟨rfl, rfl⟩ | ⟨hk, h⟩
    · exact ⟨info, by rw [if_pos rfl, lookup_insert]⟩
    obtain ⟨info', hinfo⟩ := m.found status k h
    refine ⟨info', ?_⟩
    split
    · rw [lookup_insert_ne hk, hinfo]
    · rw [lookup_erase_ne hk, hinfo]

/-- Take a task out of its bucket and forget its status. -/
def unfile : TaskManager where
  buckets status := (m.buckets status).erase id
  taskStatus := m.taskStatus.erase id
  filed := by
    intro status k info h
    obtain ⟨hk, h⟩ := lookup_erase_eq_some.mp h
    rw [lookup_erase_ne hk]
    exact m.filed status k info h
  found := by
    intro status k h
    obtain ⟨hk, h⟩ := lookup_erase_eq_some.mp h
    rw [lookup_erase_ne hk]
    exact m.found status k h

/-- `get_task`: the status first, then its bucket. -/
def getTask : Option TaskMetadata :=
  (m.taskStatus.lookup id).bind fun status => (m.buckets status).lookup id

def maybeCleanupCompleted : TaskManager :=
  let finished := pairs (m.buckets .completed) ++ pairs (m.buckets .failed)
  if finished.length ≤ maxCompletedTasks then m
  else
    let oldestFirst := finished.insertionSort fun a b =>
      toLex (a.2.completedAt, tie a.1) ≤ toLex (b.2.completedAt, tie b.1)
    (oldestFirst.take (finished.length - maxCompletedTasks)).foldl (fun m e => m.unfile e.1) m

/-- `create_task`; an id that is still known trips the assertion. -/
def createTask (spec : TaskSubmissionSpec) : Option TaskManager :=
  if id ∈ m.taskStatus then none else some (m.file id { submission := spec })

def updateTaskStatus (status : TaskStatus) : TaskManager :=
  match m.getTask id with
  | none => m
  | some info =>
    if info.status = status then m
    else if status.terminal then
      (m.file id { info with status := status, completedAt := nowMs }).maybeCleanupCompleted tie
    else m.file id { info with status := status }

/-- `fail_task`: a failed task only gets the new message. -/
def failTask (error : String) : TaskManager :=
  match m.getTask id with
  | none => m
  | some info =>
    if info.status = .failed then m.file id { info with errorMessage := error }
    else
      (m.file id { info with
        status := .failed
        errorMessage := error
        completedAt := nowMs }).maybeCleanupCompleted tie

/-- `assign_task`: from whatever status the task has. -/
def assignTask (id worker : ℕ) : TaskManager :=
  match m.getTask id with
  | none => m
  | some info => m.file id { info with status := .running, assignedWorkerId := worker }

/-- `unassign_task`: from whatever status the task has. -/
def unassignTask : TaskManager :=
  match m.getTask id with
  | none => m
  | some info => m.file id { info with status := .pending, assignedWorkerId := 0 }

def removeTask : TaskManager := m.unfile id

/-! ### Queries -/

def getTaskIdsByStatus (status : TaskStatus) : List ℕ := (m.buckets status).keys

/-- `get_task_ids_by_worker`: running tasks only. -/
def getTaskIdsByWorker (worker : ℕ) : List ℕ :=
  ((pairs (m.buckets .running)).filter fun e => e.2.assignedWorkerId = worker).map Prod.fst

def hasTasksWithStatus (status : TaskStatus) : Bool := !(m.buckets status).keys.isEmpty

def statusOf : Option TaskStatus := (m.getTask id).map TaskMetadata.status

/-! ### What a lookup sees -/

variable {m id}

theorem getTask_eq_some {info : TaskMetadata} :
    m.getTask id = some info ↔ (m.buckets info.status).lookup id = some info := by
  unfold getTask
  constructor
  · intro h
    obtain ⟨status, hstatus, h⟩ := bind_eq_some_iff.mp h
    rwa [(m.filed status id info h).1]
  · intro h
    rw [(m.filed _ id info h).2, bind_some, h]

theorem getTask_file (id : ℕ) (info : TaskMetadata) (t : ℕ) :
    (m.file id info).getTask t = if t = id then some info else m.getTask t := by
  have hstatus : (m.file id info).taskStatus.lookup t =
      if t = id then some info.status else m.taskStatus.lookup t :=
    lookup_insert_eq m.taskStatus id info.status t
  unfold getTask
  rw [hstatus]
  by_cases ht : t = id
  · subst ht
    simp [file]
  rw [if_neg ht, if_neg ht]
  congr 1
  funext status
  simp only [file]
  split
  · exact lookup_insert_ne ht
  · exact lookup_erase_ne ht

theorem getTask_unfile (id t : ℕ) :
    (m.unfile id).getTask t = if t = id then none else m.getTask t := by
  have hstatus : (m.unfile id).taskStatus.lookup t =
      if t = id then none else m.taskStatus.lookup t := lookup_erase_eq m.taskStatus id t
  unfold getTask
  rw [hstatus]
  by_cases ht : t = id
  · rw [if_pos ht, if_pos ht, bind_none]
  · rw [if_neg ht, if_neg ht]
    congr 1
    funext status
    exact lookup_erase_ne ht

theorem getTask_isSome : (m.getTask id).isSome = true ↔ id ∈ m.taskStatus := by
  rw [← lookup_isSome, getTask]
  cases h : m.taskStatus.lookup id with
  | none => simp
  | some status =>
    obtain ⟨info, hinfo⟩ := m.found status id h
    simp [hinfo]

theorem getTask_foldl_unfile (ids : List (ℕ × TaskMetadata)) (t : ℕ) :
    (ids.foldl (fun m e => m.unfile e.1) m).getTask t =
      if t ∈ ids.map Prod.fst then none else m.getTask t := by
  induction ids generalizing m with
  | nil => simp
  | cons e ids ih =>
    rw [foldl_cons, ih, getTask_unfile, map_cons]
    by_cases he : t = e.1
    · simp [he]
    · rw [if_neg he]
      exact if_congr (by simp only [mem_cons, he, false_or]) rfl rfl

/-- **The clean-up only forgets finished tasks.** -/
theorem getTask_maybeCleanupCompleted (tie : ℕ → ℕ) (t : ℕ) :
    (m.maybeCleanupCompleted tie).getTask t = m.getTask t ∨
      ((m.maybeCleanupCompleted tie).getTask t = none ∧
        ∃ info, m.getTask t = some info ∧ info.status.terminal = true) := by
  unfold maybeCleanupCompleted
  dsimp only
  split
  · exact .inl rfl
  rw [getTask_foldl_unfile]
  split
  case isFalse => exact .inl rfl
  case isTrue hmem =>
    obtain ⟨⟨k, info⟩, he, rfl⟩ := mem_map.mp hmem
    have hfinished := (mem_insertionSort _).mp (mem_of_mem_take he)
    refine .inr ⟨rfl, info, ?_⟩
    rcases mem_append.mp hfinished with h | h
    all_goals
      have hlook := mem_pairs.mp h
      have hstatus := (m.filed _ _ _ hlook).1
      exact ⟨getTask_eq_some.mpr (by rw [hstatus]; exact hlook), by rw [hstatus]; rfl⟩

/-! ### One statement for each update -/

theorem getTask_createTask {m' : TaskManager} {spec : TaskSubmissionSpec}
    (h : m.createTask id spec = some m') :
    m.getTask id = none ∧
      ∀ t, m'.getTask t = if t = id then some { submission := spec } else m.getTask t := by
  unfold createTask at h
  split at h
  · cases h
  rename_i hnot
  cases h
  refine ⟨?_, getTask_file id _⟩
  rw [← getTask_isSome, Bool.not_eq_true, isSome_eq_false_iff, isNone_iff_eq_none] at hnot
  exact hnot

theorem getTask_assignTask (id worker t : ℕ) : (m.assignTask id worker).getTask t =
      if t = id then (m.getTask id).map fun info =>
        { info with status := .running, assignedWorkerId := worker }
      else m.getTask t := by
  unfold assignTask
  cases h : m.getTask id with
  | none =>
    by_cases ht : t = id
    · simp [ht, h]
    · simp [ht]
  | some info => rw [getTask_file, map_some]

theorem getTask_unassignTask (id t : ℕ) : (m.unassignTask id).getTask t =
      if t = id then (m.getTask id).map fun info =>
        { info with status := .pending, assignedWorkerId := 0 }
      else m.getTask t := by
  unfold unassignTask
  cases h : m.getTask id with
  | none =>
    by_cases ht : t = id
    · simp [ht, h]
    · simp [ht]
  | some info => rw [getTask_file, map_some]

/-- What ending task `id` does to the table: it is over or forgotten, and of the others at most finished
ones are forgotten. -/
structure Ends (m m' : TaskManager) (id : ℕ) : Prop where
  task : ∀ info', m'.getTask id = some info' → info'.status.terminal = true ∧
    ∃ info, m.getTask id = some info
  others : ∀ t, t ≠ id → m'.getTask t = m.getTask t ∨
    (m'.getTask t = none ∧ ∃ info, m.getTask t = some info ∧ info.status.terminal = true)

theorem ends_of_file {info old : TaskMetadata} (hold : m.getTask id = some old)
    (hterminal : info.status.terminal = true) : Ends m (m.file id info) id := by
  refine ⟨fun info' h => ?_, fun t ht => ?_⟩
  · rw [getTask_file, if_pos rfl, some.injEq] at h
    exact ⟨h ▸ hterminal, old, hold⟩
  · rw [getTask_file, if_neg ht]
    exact .inl rfl

theorem Ends.cleanup {m' : TaskManager} (h : Ends m m' id) (tie : ℕ → ℕ) :
    Ends m (m'.maybeCleanupCompleted tie) id := by
  refine ⟨fun info' hinfo => ?_, fun t ht => ?_⟩
  · rcases getTask_maybeCleanupCompleted (m := m') tie id with heq | ⟨hnone, -⟩
    · exact h.task info' (heq ▸ hinfo)
    · rw [hnone] at hinfo
      cases hinfo
  · rcases getTask_maybeCleanupCompleted (m := m') tie t with heq | ⟨hnone, info, hinfo, hterm⟩
    · rw [heq]
      exact h.others t ht
    · refine .inr ⟨hnone, ?_⟩
      rcases h.others t ht with hsame | ⟨hgone, hold⟩
      · exact ⟨info, hsame ▸ hinfo, hterm⟩
      · exact hold

theorem ends_of_unknown (h : m.getTask id = none) : Ends m m id := by
  refine ⟨fun info' hinfo => ?_, fun t _ => .inl rfl⟩
  rw [h] at hinfo
  cases hinfo

theorem ends_completed (nowMs : ℕ) (tie : ℕ → ℕ) (id : ℕ) :
    Ends m (m.updateTaskStatus nowMs tie id .completed) id := by
  unfold updateTaskStatus
  cases h : m.getTask id with
  | none => exact ends_of_unknown h
  | some info =>
    dsimp only
    split
    · rename_i hstatus
      refine ⟨fun info' hinfo => ?_, fun t _ => .inl rfl⟩
      rw [h, some.injEq] at hinfo
      exact ⟨by rw [← hinfo, hstatus]; rfl, info, h⟩
    · exact (ends_of_file h rfl).cleanup tie

theorem ends_failTask (nowMs : ℕ) (tie : ℕ → ℕ) (id : ℕ) (error : String) :
    Ends m (m.failTask nowMs tie id error) id := by
  unfold failTask
  cases h : m.getTask id with
  | none => exact ends_of_unknown h
  | some info =>
    dsimp only
    split
    · rename_i hstatus
      exact ends_of_file h (by rw [hstatus]; rfl)
    · exact (ends_of_file h rfl).cleanup tie

theorem mem_getTaskIdsByWorker {worker t : ℕ} : t ∈ m.getTaskIdsByWorker worker ↔
      ∃ info, m.getTask t = some info ∧ info.status = .running ∧ info.assignedWorkerId = worker := by
  simp only [getTaskIdsByWorker, List.mem_map, List.mem_filter, Prod.exists, Table.mem_pairs,
    decide_eq_true_eq]
  constructor
  · rintro ⟨k, info, ⟨hlook, hw⟩, rfl⟩
    have hstatus := (m.filed _ _ _ hlook).1
    exact ⟨info, getTask_eq_some.mpr (by rw [hstatus]; exact hlook), hstatus, hw⟩
  · rintro ⟨info, hinfo, hstatus, hw⟩
    refine ⟨t, info, ⟨?_, hw⟩, rfl⟩
    have := getTask_eq_some.mp hinfo
    rwa [hstatus] at this

end TaskManager

end Fly.Task
