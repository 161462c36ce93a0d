import Fly.Lib.Ieee
import Fly.Lib.Run
import Fly.Lib.Table
import Mathlib.Data.Prod.Lex

/-!
# The dependency graph of the master (`task/cpp/dependency_graph.{h,cpp}`)

A task waits in `pendingTasks` until every one of its input paths is marked ready; then it sits in
`readyTasks`, ordered by descending priority and ascending id, until the scheduler takes it out.
Readiness is never recomputed for all tasks: `markDataReady` only looks at the tasks the reverse index
`dataToPendingTasks` lists under the path, so the whole behaviour hinges on that index.

Each method of the class runs under the graph's own mutex and is one function here.  `addTask` answers
`none` where the source asserts (`duplicate task_id`).  The clock is a parameter: `now id` is the pair
of readings taken when task `id` is stamped as ready.

`operator[]` of the source default-inserts an entry for an unknown key; it is only applied to the
dependencies of ready or pending tasks, which always have an entry (`SlotInv.held`).
-/

namespace Fly.Task

open Fly.Lib

/-- What a task asks of its worker.  `timeoutSeconds`: negative waits for a full capability match, zero
degrades at once, positive degrades after that many seconds of being ready. -/
structure TaskRequirements where
  capabilities : List String := []
  timeoutSeconds : Ieee := .fin (-1)
  localityHint : List (ℕ × ℤ) := []
  priority : ℤ := 10
  deriving DecidableEq

/-- A reading of both clocks: `steady_clock` in nanoseconds and the wall clock in milliseconds. -/
structure Now where
  steady : ℤ
  epochMs : ℤ
  deriving DecidableEq

/-- The key under which a task sits in `ready_tasks_`: `{-priority, task_id}`. -/
abbrev ReadyKey := ℤ ×ₗ ℕ

/-- `{-priority, task_id}`. -/
def readyKey (priority : ℤ) (id : ℕ) : ReadyKey := toLex (-priority, id)

/-- The task id of a ready key. -/
def ReadyKey.task (k : ReadyKey) : ℕ := (ofLex k).2

@[simp] theorem readyKey_task (priority : ℤ) (id : ℕ) : (readyKey priority id).task = id := rfl

structure DependencyGraph where
  taskDependencies : Table ℕ (List String) := ∅
  dataReadyStatus : Table String Bool := ∅
  taskRequirements : Table ℕ TaskRequirements := ∅
  readyTasks : SortedSet ReadyKey := ∅
  pendingTasks : SortedSet ℕ := ∅
  completedTasks : SortedSet ℕ := ∅
  taskReadyTimestamps : Table ℕ ℤ := ∅
  taskReadyEpochMs : Table ℕ ℤ := ∅
  dataToPendingTasks : Table String (SortedSet ℕ) := ∅
  deriving DecidableEq

namespace DependencyGraph

variable (g : DependencyGraph) (id : ℕ)

/-! ### Queries -/

/-- `is_data_ready`: the path has an entry and the entry is `true`. -/
def isDataReady (path : String) : Bool :=
  g.dataReadyStatus.lookup path == some true

/-- `get_ready_tasks`: ids in the order of `ready_tasks_`. -/
def getReadyTasks : List ℕ := g.readyTasks.toList.map ReadyKey.task

/-- `get_pending_tasks`: ids in ascending order. -/
def getPendingTasks : List ℕ := g.pendingTasks.toList

/-- `get_task_requirements`: a default-constructed value for an unknown task. -/
def getTaskRequirements : TaskRequirements :=
  (g.taskRequirements.lookup id).getD {}

/-- The priority looked up before a ready key is rebuilt; 10 for an unknown task. -/
def priorityOf : ℤ := (g.getTaskRequirements id).priority

/-- `is_task_ready`: looks the rebuilt key up. -/
def isTaskReady : Bool :=
  decide (readyKey (g.priorityOf id) id ∈ g.readyTasks)

def getTaskReadyTimestamp : Option ℤ :=
  g.taskReadyTimestamps.lookup id

/-- `get_task_ready_epoch_ms`: 0 for a task that was never ready. -/
def getTaskReadyEpochMs : ℤ :=
  (g.taskReadyEpochMs.lookup id).getD 0

def getTaskDependencies : List String :=
  (g.taskDependencies.lookup id).getD []

/-! ### Updates shared by the operations -/

/-- `data_to_pending_tasks_[dep].insert(task_id)`. -/
def indexInsert (idx : Table String (SortedSet ℕ)) (id : ℕ) (dep : String) : Table String (SortedSet ℕ) :=
  Table.upsert idx dep ∅ (·.insert id)

/-- Drop `task_id` from the entry of `dep`, and the entry itself once it is empty. -/
def indexErase (idx : Table String (SortedSet ℕ)) (id : ℕ) (dep : String) : Table String (SortedSet ℕ) :=
  match idx.lookup dep with
  | none => idx
  | some s => if (s.erase id).toList = [] then idx.erase dep else idx.insert dep (s.erase id)

/-- The tasks the index lists under `dep`. -/
def indexed (dep : String) : SortedSet ℕ :=
  (g.dataToPendingTasks.lookup dep).getD ∅

def index (deps : List String) : DependencyGraph :=
  { g with
    dataToPendingTasks := deps.foldl (fun idx dep => indexInsert idx id dep) g.dataToPendingTasks }

def unindex (deps : List String) : DependencyGraph :=
  { g with
    dataToPendingTasks := deps.foldl (fun idx dep => indexErase idx id dep) g.dataToPendingTasks }

/-- The paths of `deps` that are not marked ready. -/
def unmet (deps : List String) : List String :=
  deps.filter fun dep => !g.isDataReady dep

def park : DependencyGraph :=
  { g with pendingTasks := g.pendingTasks.insert id }

def unpark : DependencyGraph :=
  { g with pendingTasks := g.pendingTasks.erase id }

/-- Enter `id` into `ready_tasks_` and stamp both clocks. -/
def stampReady (now : ℕ → Now) (priority : ℤ) (id : ℕ) : DependencyGraph :=
  { g with
    readyTasks := g.readyTasks.insert (readyKey priority id)
    taskReadyTimestamps := g.taskReadyTimestamps.insert id (now id).steady
    taskReadyEpochMs := g.taskReadyEpochMs.insert id (now id).epochMs }

/-- Erase the rebuilt key of `id` and its steady stamp; the epoch stamp stays. -/
def unready : DependencyGraph :=
  { g with
    readyTasks := g.readyTasks.erase (readyKey (g.priorityOf id) id)
    taskReadyTimestamps := g.taskReadyTimestamps.erase id }

/-! ### Operations -/

/-- The part of `add_task` before the two branches: both table entries and the reverse index. -/
def enter (inputs : List String) (requirements : TaskRequirements) : DependencyGraph :=
  index
    { g with
      taskDependencies := g.taskDependencies.insert id inputs
      taskRequirements := g.taskRequirements.insert id requirements } id (g.unmet inputs)

/-- `add_task`.  Re-adding a task that is still in the graph trips the assertion. -/
def addTask (now : ℕ → Now) (id : ℕ) (inputs : List String)
    (requirements : TaskRequirements) : Option DependencyGraph :=
  if id ∈ g.taskDependencies then none
  else if (g.unmet inputs).length = 0 then
    some ((g.enter id inputs requirements).stampReady now requirements.priority id)
  else some ((g.enter id inputs requirements).park id)

/-- `set_task_locality_hint`: ignored for an unknown task. -/
def setTaskLocalityHint (hint : List (ℕ × ℤ)) : DependencyGraph :=
  { g with
    taskRequirements := Table.modify g.taskRequirements id fun r => { r with localityHint := hint } }

/-- `check_and_move_to_ready`: `some` is the answer `true`, with the graph after the move. -/
def checkAndMoveToReady (now : ℕ → Now) (id : ℕ) : Option DependencyGraph :=
  if id ∈ g.completedTasks then none
  else if id ∈ g.getReadyTasks then none
  else if id ∉ g.pendingTasks then none
  else
    let deps := g.getTaskDependencies id
    if deps.any fun dep => !g.isDataReady dep then none
    else some (((g.unpark id).stampReady now (g.priorityOf id) id).unindex id deps)

/-- The loop of `mark_data_ready` over its copy of the affected set. -/
def wakeAll (now : ℕ → Now) (g : DependencyGraph) (affected : List ℕ) : DependencyGraph :=
  affected.foldl (fun g id => (g.checkAndMoveToReady now id).getD g) g

/-- `mark_data_ready`: only the tasks indexed under the path are re-examined. -/
def markDataReady (now : ℕ → Now) (path : String) : DependencyGraph :=
  let g' := { g with dataReadyStatus := g.dataReadyStatus.insert path true }
  wakeAll now g' (g'.indexed path).toList

/-- One turn of the second loop of `mark_data_removed`: back to pending, re-indexed under every
dependency that is not ready now. -/
def demote : DependencyGraph :=
  ((g.unready id).park id).index id (g.unmet (g.getTaskDependencies id))

/-- `mark_data_removed`: collect the ready tasks that depend on the path, then demote each. -/
def markDataRemoved (path : String) : DependencyGraph :=
  let g' := { g with dataReadyStatus := g.dataReadyStatus.erase path }
  let toPending := g'.getReadyTasks.filter fun id => path ∈ g'.getTaskDependencies id
  toPending.foldl demote g'

/-- `remove_task`.  The epoch stamp stays, and the id is remembered in `completed_tasks_`. -/
def removeTask : DependencyGraph :=
  let g' := ((g.unready id).unpark id).unindex id (g.getTaskDependencies id)
  { g' with
    completedTasks := g'.completedTasks.insert id
    taskDependencies := g'.taskDependencies.erase id
    taskRequirements := g'.taskRequirements.erase id }

end DependencyGraph

/-! ### Operation sequences -/

/-- One call of a mutating method of the graph. -/
inductive GraphOp where
  | addTask (now : ℕ → Now) (id : ℕ) (inputs : List String) (requirements : TaskRequirements)
  | markDataReady (now : ℕ → Now) (path : String)
  | markDataRemoved (path : String)
  | setTaskLocalityHint (id : ℕ) (hint : List (ℕ × ℤ))
  | removeTask (id : ℕ)

/-- Perform one call; `none` is the failed assertion of `add_task`. -/
def GraphOp.step (g : DependencyGraph) : GraphOp → Option DependencyGraph
  | .addTask now id inputs requirements => g.addTask now id inputs requirements
  | .markDataReady now path => some (g.markDataReady now path)
  | .markDataRemoved path => some (g.markDataRemoved path)
  | .setTaskLocalityHint id hint => some (g.setTaskLocalityHint id hint)
  | .removeTask id => some (g.removeTask id)

end Fly.Task
