import Mathlib.Logic.Function.Basic
import Fly.Lib.Run
import Fly.Storage.DataService
import Fly.Storage.Database

/-!
# The writes of a task on a worker

A worker runs one task at a time.  The writes of a task are registered with the master, recorded, and
handed to the write-back queue; when the task ends, `finish_task` closes the segments of the databases
found in the record, or takes them back.

* `WorkerAgent` — the state: the databases, the local index of the data service, the write-back queue,
  and what `WorkerAgentContext` keeps for the task that runs;
* `registerWriteWithMaster`, `writeObject`, `commitWrite`, `openWriteStream`, `commitStream`,
  `removeObject`, `onRemoveCommand`, `writeBack`, `beginTask`, `finishTask` — the functions of the source;
  the answers of the master, the places of the records and the walking orders of `save` are arguments;
* `Op`, `perform` — one operation, with what it lets the outside see (`Event`);
* `TaskRun`, `TaskRun.step` — a worker with the history of its events.

A call that waits (for the write-back queue to reach its unit, or for the queue to drain) has no next
state until the units before it have been performed.
-/

namespace Fly.Agent

open Fly.Lib Fly.Storage Function Option

/-! ### The state -/

structure WriteRecord where
  fullName : String
  sizeBytes : ℤ
  deriving DecidableEq, Repr

/-- Where the data writer puts a record. -/
structure Placement where
  fileName : ℕ
  offset : ℕ
  size : ℤ
  blockCount : ℤ
  host : String

def Placement.entry (p : Placement) (objectName writeContextHash : String) : IndexEntry :=
  { objectName, fileName := p.fileName, offset := p.offset, size := p.size,
    blockCount := p.blockCount, host := p.host, writeContextHash }

/-- The unit of a `commit_write` in the write-back queue. -/
structure WriteRequest where
  object : ObjectName
  entry : IndexEntry

structure WorkerAgent where
  databases : String → Database := fun _ => {}
  localIdx : LocalIdx (String × String) IndexEntry := ∅
  writeBackQueue : List WriteRequest := []
  currentWrites : List WriteRecord := []
  currentWriteHash : String := ""
  lastErrorType : TaskErrorType := .unknown
  transactionMode : Bool := false
  /-- The open stream of a database: its object, and whether the stream has set the write hash. -/
  streams : Table String (ObjectName × Bool) := ∅

/-- How the master answers a registration. -/
inductive RegisterReply where
  | accepted
  | refused (message : String) (errorType : TaskErrorType) (isError : errorType ≠ .unknown)
  /-- no answer in time; `registered` is whether the worker was registered when it asked -/
  | timedOut (registered : Bool)

inductive WriteErrorType where
  | ok
  | frozenDb
  | registrationFailed
  | registrationTimeout
  | duplicateSkipped
  deriving DecidableEq, Repr

inductive TaskExecResult where
  | success (outputs : List String)
  | failure (error : String)

/-- What `finish_task` sends to the master. -/
inductive TaskReport where
  | complete (writtenObjects : List WriteRecord)
  | failed (errorMessage : String) (errorType : TaskErrorType) (dirtyObjects : List String)
  deriving DecidableEq, Repr

def TaskReport.isComplete : TaskReport → Bool
  | complete _ => true
  | failed .. => false

/-- The number of an error type in messages. -/
def errorCode : TaskErrorType → ℕ
  | .unknown => 0
  | .executionError => 1
  | .writeToFrozenDb => 2
  | .writeRegistrationFailed => 3
  | .writeRegistrationTimeout => 4
  | .writeProvenanceMismatch => 5
  | .writeDuplicateSkipped => 6
  | .dbAlreadyFrozen => 7

namespace WorkerAgent

variable (w : WorkerAgent) (object : ObjectName)

/-! ### Registration -/

/-- The hash of a write: that of the task, or a time stamp if it has none. -/
def writeHash (timestamp : String) : String :=
  if w.currentWriteHash = "" then timestamp else w.currentWriteHash

def findLocalEntries (fullName : String) : List IndexEntry :=
  ((w.localIdx.lookup (splitFullName fullName)).map LocalObjectInfo.entries).getD []

/-- The entries a registration is checked against: none before the object is written. -/
def existingEntries (preliminary : Bool) (ctxHash : String) : List IndexEntry :=
  if preliminary ∨ ctxHash = "" then [] else w.findLocalEntries object.full

/-- Message and error type of a registration; `UNKNOWN` stands for no error.  The task learns of errors
through `lastErrorType`, too. -/
def registerWriteWithMaster (preliminary : Bool)
    (timestamp : String) (reply : RegisterReply) : (String × TaskErrorType) × WorkerAgent :=
  let ctxHash := w.writeHash timestamp
  let existing := w.existingEntries object preliminary ctxHash
  match existing.find? fun e => e.writeContextHash ≠ "" ∧ e.writeContextHash ≠ ctxHash with
  | some e =>
    (("Write provenance mismatch for " ++ object.full ++ ": existing hash=" ++ e.writeContextHash ++
        " new hash=" ++ ctxHash, .writeProvenanceMismatch),
      { w with lastErrorType := .writeProvenanceMismatch })
  | none =>
    if existing.any fun e => e.writeContextHash = ctxHash then
      -- the answer says that all is well, the last error does not
      (("", .unknown), { w with lastErrorType := .writeDuplicateSkipped })
    else
      match reply with
      | .accepted => (("", .unknown), w)
      | .refused message errorType _ => ((message, errorType), { w with lastErrorType := errorType })
      | .timedOut registered =>
        ((if registered then "Write registration timeout for: " ++ object.full
            else "WriteRegister pending timeout: " ++ object.full, .writeRegistrationTimeout),
          { w with lastErrorType := .writeRegistrationTimeout })

def recordWrite (size : ℤ) : WorkerAgent :=
  { w with currentWrites := w.currentWrites ++ [⟨object.full, size⟩] }

/-- The guard that takes the write hash back if this write has set it. -/
def releaseHash (selfSet : Bool) : WorkerAgent :=
  { w with currentWriteHash := if selfSet then "" else w.currentWriteHash }

/-! ### Writes at once -/

/-- The error types that `commit_write` takes for a rejection, and its answers. -/
def rejectionOf : TaskErrorType → Option WriteErrorType
  | .writeDuplicateSkipped => some .duplicateSkipped
  | .writeProvenanceMismatch | .writeRegistrationFailed => some .registrationFailed
  | .writeRegistrationTimeout => some .registrationTimeout
  | .writeToFrozenDb => some .frozenDb
  | .unknown | .executionError | .dbAlreadyFrozen => none

def commitWrite (placement : Placement) (timestamp : String)
    (reply : RegisterReply) : WriteErrorType × WorkerAgent :=
  let selfSetHash := decide (w.currentWriteHash = "")
  let writeHash := w.writeHash timestamp
  let key := splitFullName object.full
  let w := { w with currentWriteHash := writeHash, localIdx := w.localIdx.onWriteStarted key }
  let ((_, errorType), w) := w.registerWriteWithMaster object false timestamp reply
  match rejectionOf errorType with
  | some err =>
    (err, releaseHash
      { w with
        localIdx := w.localIdx.onWriteFailed key
        lastErrorType := if errorType = .writeDuplicateSkipped then errorType else w.lastErrorType }
      selfSetHash)
  | none =>
    let w := w.recordWrite object placement.size
    (.ok, releaseHash
      { w with
        writeBackQueue := w.writeBackQueue ++ [⟨object, placement.entry object.shortName writeHash⟩] }
      selfSetHash)

/-- `frozen` is whether the database is frozen at the time of the call. -/
def writeObject (frozen : Bool) (object : ObjectName) (placement : Placement)
    (timestamp : String) (reply : RegisterReply) : WriteErrorType × WorkerAgent :=
  if frozen then (.frozenDb, { w with lastErrorType := .writeToFrozenDb })
  else w.commitWrite object placement timestamp reply

/-- The end of a write that went well: the local index takes over what the writer has of the object. -/
def completeWrite : WorkerAgent :=
  let key := splitFullName object.full
  let localIdx :=
    match (w.databases object.dbPath).index.findAllEntries object.shortName with
    | some entries => w.localIdx.onWriteCompleted key entries
    | none => w.localIdx
  { w with localIdx := localIdx.onObjectFlushed key }

/-- The write-back queue performs its first unit. -/
def writeBack (adds : List (String × List IndexEntry)) (removes : List String) : Option WorkerAgent :=
  match w.writeBackQueue with
  | [] => none
  | request :: rest =>
    ((w.databases request.object.dbPath).openSegment.addAndFlush request.entry adds removes).map
      fun database => completeWrite
        { w with
          writeBackQueue := rest
          databases := update w.databases request.object.dbPath database }
        request.object

/-! ### Streamed writes -/

/-- The answer is whether there is a stream.  The segment is opened by a unit of the queue for which
the call waits; a database has at most one stream at a time. -/
def openWriteStream (frozen : Bool) (object : ObjectName) (timestamp : String)
    (reply : RegisterReply) : Option (Bool × WorkerAgent) :=
  if frozen then some (false, { w with lastErrorType := .writeToFrozenDb })
  else
    let hashSelfSet := decide (w.currentWriteHash = "")
    let w := { w with currentWriteHash := w.writeHash timestamp }
    let ((_, errorType), w) := w.registerWriteWithMaster object true timestamp reply
    if errorType ≠ .unknown then
      some (false, releaseHash { w with lastErrorType := errorType } hashSelfSet)
    else if w.writeBackQueue = [] ∧ w.streams.lookup object.dbPath = none then
      some (true, { w with
        databases := update w.databases object.dbPath (w.databases object.dbPath).openSegment
        streams := w.streams.insert object.dbPath (object, hashSelfSet) })
    else none

/-- `finish_and_commit` of a stream: the entry is in the index file before the write is registered. -/
def commitStream (hashSelfSet : Bool) (placement : Placement)
    (adds : List (String × List IndexEntry)) (removes : List String) (timestamp : String)
    (reply : RegisterReply) : Option (WriteErrorType × WorkerAgent) :=
  if w.writeBackQueue = [] then
    ((w.databases object.dbPath).addAndFlush (placement.entry object.shortName "") adds removes).map
      fun database =>
        let key := splitFullName object.full
        let selfSetHash := hashSelfSet || decide (w.currentWriteHash = "")
        let w := { w with
          databases := update w.databases object.dbPath database
          streams := w.streams.erase object.dbPath
          currentWriteHash := w.writeHash timestamp
          localIdx := w.localIdx.onWriteStarted key }
        -- the size that `get_last_entry` gives
        let size := ((database.index.findEntry object.shortName).map IndexEntry.size).getD 0
        let ((_, errorType), w) := w.registerWriteWithMaster object false timestamp reply
        if errorType ≠ .unknown then
          (if errorType = .writeDuplicateSkipped then .duplicateSkipped else .registrationFailed,
            releaseHash { w with localIdx := w.localIdx.onWriteFailed key, lastErrorType := errorType }
              selfSetHash)
        else (.ok, ((w.recordWrite object size).completeWrite object).releaseHash selfSetHash)
  else none

/-! ### Removals -/

/-- Nothing happens in a frozen database. -/
def removeObject (frozen : Bool) (object : ObjectName) : WorkerAgent :=
  if frozen then w
  else
    { w with
      databases := update w.databases object.dbPath
        ((w.databases object.dbPath).removeEntry object.shortName)
      localIdx := w.localIdx.removeLocalIndex (splitFullName object.full) }

/-- The master tells the workers that hold an object to remove it. -/
def onRemoveCommand : WorkerAgent :=
  { w with
    databases := update w.databases object.dbPath
      ((w.databases object.dbPath).removeEntry object.shortName)
    localIdx := w.localIdx.removeLocalIndex (splitFullName object.full) }

/-! ### Begin and end of a task -/

def beginTask (writeContextHash : String) : WorkerAgent :=
  { w with
    currentWrites := []
    currentWriteHash := writeContextHash
    transactionMode := true
    lastErrorType := .unknown }

def endTask : List WriteRecord × WorkerAgent :=
  (w.currentWrites, { w with
    lastErrorType := .unknown
    transactionMode := false
    currentWriteHash := ""
    currentWrites := []
    streams := ∅ })

/-- The databases in which a task has recorded writes. -/
def involvedDbs (writes : List WriteRecord) : List String :=
  (writes.map fun record => (splitFullName record.fullName).1).filter (· ≠ "")

/-- Each database is drained before its segment is closed. -/
def commitTaskSegments (writes : List WriteRecord) : Option WorkerAgent :=
  if involvedDbs writes = [] then some w
  else if w.writeBackQueue = [] then
    some { w with
      databases := fun dbPath =>
        if dbPath ∈ involvedDbs writes then (w.databases dbPath).markWriteEnd else w.databases dbPath }
  else none

/-- `abort_task_writes` on each database: the queue is cleared, the segment taken back, and the objects
leave the local index. -/
def cleanupFailedTaskWrites (writes : List WriteRecord) : WorkerAgent :=
  if involvedDbs writes = [] then w
  else
    { w with
      writeBackQueue := []
      databases := fun dbPath =>
        if dbPath ∈ involvedDbs writes then (w.databases dbPath).abortSegment else w.databases dbPath
      localIdx := (writes.filter fun record => (splitFullName record.fullName).1 ≠ "").foldl
        (fun idx record => idx.removeLocalIndex (splitFullName record.fullName)) w.localIdx }

def finishTask (result : TaskExecResult) : Option (TaskReport × WorkerAgent) :=
  -- taken before `end_task` resets it
  let errorType := w.lastErrorType
  let (writes, w) := w.endTask
  match result with
  | .success outputs =>
    if errorType ≠ .unknown then
      some (.failed ("Write registration rejected: error_type=" ++ toString (errorCode errorType))
        errorType (writes.map WriteRecord.fullName), w.cleanupFailedTaskWrites writes)
    else
      (w.commitTaskSegments writes).map fun w =>
        (.complete (writes ++ outputs.map fun output => ⟨output, 0⟩), w)
  | .failure error =>
    some (.failed error errorType (writes.map WriteRecord.fullName), w.cleanupFailedTaskWrites writes)

end WorkerAgent

/-! ### Operations and events -/

inductive Op where
  | beginTask (writeContextHash : String)
  | writeObject (frozen : Bool) (object : ObjectName) (placement : Placement) (timestamp : String)
      (reply : RegisterReply)
  | openWriteStream (frozen : Bool) (object : ObjectName) (timestamp : String) (reply : RegisterReply)
  | commitStream (dbPath : String) (placement : Placement) (adds : List (String × List IndexEntry))
      (removes : List String) (timestamp : String) (reply : RegisterReply)
  | removeObject (frozen : Bool) (object : ObjectName)
  | onRemoveCommand (object : ObjectName)
  | writeBack (adds : List (String × List IndexEntry)) (removes : List String)
  | finishTask (result : TaskExecResult)

/-- What the outside sees of an operation. -/
inductive Event where
  /-- a write that was accepted, with the entry it gets -/
  | wrote (dbPath : String) (entry : IndexEntry)
  | removed (dbPath name : String)
  | finished (report : TaskReport)

namespace WorkerAgent

/-- One operation.  Tasks run one after another; only the write-back queue and the master act outside of
them. -/
def perform (w : WorkerAgent) : Op → Option (List Event × WorkerAgent)
  | .beginTask hash => if w.transactionMode then none else some ([], w.beginTask hash)
  | .writeObject frozen object placement timestamp reply =>
    if w.transactionMode then
      let (err, w') := w.writeObject frozen object placement timestamp reply
      some (if err = .ok then
        [.wrote object.dbPath (placement.entry object.shortName (w.writeHash timestamp))] else [], w')
    else none
  | .openWriteStream frozen object timestamp reply =>
    if w.transactionMode then
      (w.openWriteStream frozen object timestamp reply).map fun (_, w') => ([], w')
    else none
  | .commitStream dbPath placement adds removes timestamp reply =>
    if w.transactionMode then
      match w.streams.lookup dbPath with
      | some (object, hashSelfSet) =>
        (w.commitStream object hashSelfSet placement adds removes timestamp reply).map fun (err, w') =>
            (if err = .ok then [.wrote object.dbPath (placement.entry object.shortName "")] else [], w')
      | none => none
    else none
  | .removeObject frozen object =>
    if w.transactionMode then
      some (if frozen then [] else [.removed object.dbPath object.shortName],
        w.removeObject frozen object)
    else none
  | .onRemoveCommand object =>
    some ([.removed object.dbPath object.shortName], w.onRemoveCommand object)
  | .writeBack adds removes => (w.writeBack adds removes).map fun w' => ([], w')
  | .finishTask result =>
    if w.transactionMode then
      (w.finishTask result).map fun (report, w') => ([.finished report], w')
    else none

end WorkerAgent

/-- A worker with what the outside has seen of it. -/
structure TaskRun where
  worker : WorkerAgent := {}
  history : List Event := []

def TaskRun.step (s : TaskRun) (op : Op) : Option TaskRun :=
  (s.worker.perform op).map fun (events, worker) => ⟨worker, s.history ++ events⟩

/-! ### What an operation does -/

namespace WorkerAgent

variable {w : WorkerAgent}

/-- A registration changes the last error at most, to an error, and always if it is refused. -/
theorem registerWriteWithMaster_spec (w : WorkerAgent) (object : ObjectName) (preliminary : Bool)
    (timestamp : String) (reply : RegisterReply) :
    ∃ answer lastError, w.registerWriteWithMaster object preliminary timestamp reply =
        (answer, { w with lastErrorType := lastError }) ∧
      (lastError = .unknown → w.lastErrorType = .unknown) ∧
      (answer.2 ≠ .unknown → lastError = answer.2) := by
  unfold registerWriteWithMaster
  dsimp only
  split
  · exact ⟨_, .writeProvenanceMismatch, rfl, by simp, fun _ => rfl⟩
  split
  · exact ⟨("", .unknown), .writeDuplicateSkipped, rfl, by simp, fun h => absurd rfl h⟩
  cases reply with
  | accepted => exact ⟨("", .unknown), w.lastErrorType, rfl, id, fun h => absurd rfl h⟩
  | refused message errorType isError =>
    exact ⟨(message, errorType), errorType, rfl, (absurd · isError), fun _ => rfl⟩
  | timedOut registered =>
    exact ⟨_, .writeRegistrationTimeout, rfl, by simp, fun _ => rfl⟩

/-- A guard around a write leaves the hash as it was. -/
theorem ite_writeHash (w : WorkerAgent) (timestamp : String) (selfSet : Bool) :
    (if (selfSet || decide (w.currentWriteHash = "")) = true then "" else w.writeHash timestamp) =
      if selfSet then "" else w.currentWriteHash := by
  unfold writeHash
  by_cases hhash : w.currentWriteHash = "" <;> simp [hhash]

variable {w' : WorkerAgent}
  {object : ObjectName} {timestamp : String} {reply : RegisterReply} {adds : List (String × List IndexEntry)}
  {removes : List String} {result : TaskExecResult} {report : TaskReport}

/-- A write is refused, or recorded and put into the queue. -/
theorem writeObject_spec {frozen : Bool} {placement : Placement} {err : WriteErrorType}
    (h : w.writeObject frozen object placement timestamp reply = (err, w')) :
    ∃ idx lastError, (lastError = .unknown → w.lastErrorType = .unknown) ∧
      ((err ≠ .ok ∧ w' = { w with localIdx := idx, lastErrorType := lastError }) ∨
      (err = .ok ∧ w' = { w with
        localIdx := idx
        lastErrorType := lastError
        currentWrites := w.currentWrites ++ [⟨object.full, placement.size⟩]
        writeBackQueue := w.writeBackQueue ++
          [⟨object, placement.entry object.shortName (w.writeHash timestamp)⟩] })) := by
  unfold writeObject at h
  split at h
  · cases h
    exact ⟨_, .writeToFrozenDb, nofun, .inl ⟨nofun, rfl⟩⟩
  unfold commitWrite at h
  dsimp only at h
  obtain ⟨answer, lastError, hregister, hlast, hrefused⟩ := registerWriteWithMaster_spec
    { w with
      currentWriteHash := w.writeHash timestamp
      localIdx := w.localIdx.onWriteStarted (splitFullName object.full) }
    object false timestamp reply
  have hhash := w.ite_writeHash timestamp false
  rw [Bool.false_or, if_neg Bool.false_ne_true] at hhash
  rw [hregister] at h
  dsimp only [releaseHash, recordWrite] at h
  rw [hhash] at h
  cases hanswer : rejectionOf answer.2 with
  | none =>
    rw [hanswer] at h
    cases h
    exact ⟨_, lastError, hlast, .inr ⟨rfl, rfl⟩⟩
  | some err =>
    have hne : answer.2 ≠ .unknown := by
      intro heq
      rw [heq] at hanswer
      cases hanswer
    have herr : err ≠ .ok := by
      rintro rfl
      generalize answer.2 = errorType at hanswer
      cases errorType <;> cases hanswer
    rw [hanswer] at h
    cases h
    refine ⟨_, _, fun hok => absurd hok ?_, .inl ⟨herr, rfl⟩⟩
    split
    · exact hne
    · rw [hrefused hne]
      exact hne

/-- `open_write_stream` is refused, or opens the segment of the database. -/
theorem openWriteStream_spec {frozen opened : Bool}
    (h : w.openWriteStream frozen object timestamp reply = some (opened, w')) :
    ∃ lastError, (lastError = .unknown → w.lastErrorType = .unknown) ∧
      (w' = { w with lastErrorType := lastError } ∨
      w' = { w with
        currentWriteHash := w.writeHash timestamp
        lastErrorType := lastError
        databases := update w.databases object.dbPath (w.databases object.dbPath).openSegment
        streams := w.streams.insert object.dbPath (object, decide (w.currentWriteHash = "")) }) := by
  unfold openWriteStream at h
  split at h
  · cases h
    exact ⟨.writeToFrozenDb, by simp, .inl rfl⟩
  dsimp only at h
  obtain ⟨answer, lastError, hregister, hlast, hrefused⟩ := registerWriteWithMaster_spec
    { w with currentWriteHash := w.writeHash timestamp } object true timestamp reply
  have hhash := w.ite_writeHash timestamp false
  rw [Bool.false_or, if_neg Bool.false_ne_true] at hhash
  rw [hregister] at h
  dsimp only [releaseHash] at h
  rw [hhash] at h
  split at h
  · next hne =>
    cases h
    exact ⟨_, (absurd · hne), .inl rfl⟩
  · split at h
    · cases h
      exact ⟨lastError, hlast, .inr rfl⟩
    · cases h

/-- A stream is committed with an empty queue: its entry goes into the index, and then the write is
refused, or recorded. -/
theorem commitStream_spec {hashSelfSet : Bool} {placement : Placement} {err : WriteErrorType}
    (h : w.commitStream object hashSelfSet placement adds removes timestamp reply = some (err, w')) :
    w.writeBackQueue = [] ∧ ∃ database,
      (w.databases object.dbPath).addAndFlush (placement.entry object.shortName "") adds removes =
        some database ∧
      ∃ idx lastError writes, w' = { w with
          databases := update w.databases object.dbPath database
          streams := w.streams.erase object.dbPath
          localIdx := idx
          currentWriteHash := if hashSelfSet then "" else w.currentWriteHash
          lastErrorType := lastError
          currentWrites := writes } ∧
        (err ≠ .ok ∧ lastError ≠ .unknown ∧ writes = w.currentWrites ∨
          err = .ok ∧ (lastError = .unknown → w.lastErrorType = .unknown) ∧
            ∃ size, writes = w.currentWrites ++ [⟨object.full, size⟩]) := by
  unfold commitStream at h
  split at h
  · next hqueue =>
    obtain ⟨database, hflush, h⟩ := map_eq_some_iff.mp h
    refine ⟨hqueue, database, hflush, ?_⟩
    dsimp only at h
    obtain ⟨answer, lastError, hregister, hlast, -⟩ := registerWriteWithMaster_spec
      { w with
        databases := update w.databases object.dbPath database
        streams := w.streams.erase object.dbPath
        currentWriteHash := w.writeHash timestamp
        localIdx := w.localIdx.onWriteStarted (splitFullName object.full) }
      object false timestamp reply
    rw [hregister] at h
    dsimp only [releaseHash, recordWrite, completeWrite] at h
    rw [w.ite_writeHash timestamp hashSelfSet] at h
    split at h
    · next hne =>
      cases h
      refine ⟨_, answer.2, _, rfl, .inl ⟨?_, hne, rfl⟩⟩
      split <;> decide
    · cases h
      exact ⟨_, lastError, _, rfl, .inr ⟨rfl, hlast, _, rfl⟩⟩
  · cases h

/-- The unit at the front of the queue, as its database sees it. -/
theorem writeBack_spec (h : w.writeBack adds removes = some w') :
    ∃ request rest database idx, w.writeBackQueue = request :: rest ∧
      (w.databases request.object.dbPath).openSegment.addAndFlush request.entry adds removes =
        some database ∧
      w' = { w with
        writeBackQueue := rest
        databases := update w.databases request.object.dbPath database
        localIdx := idx } := by
  unfold writeBack at h
  split at h
  · cases h
  · next request rest hqueue =>
    obtain ⟨database, hflush, rfl⟩ := map_eq_some_iff.mp h
    exact ⟨request, rest, database, _, hqueue, hflush, rfl⟩

/-- The task is going to be reported complete. -/
def Completes (w : WorkerAgent) (result : TaskExecResult) : Prop :=
  w.lastErrorType = .unknown ∧ ∃ outputs, result = .success outputs

/-- A task that completes has the segments of its databases closed, with nothing left in the queue. -/
theorem finishTask_of_completes
    (hcompletes : w.Completes result) (h : w.finishTask result = some (report, w')) :
    report.isComplete = true ∧ (involvedDbs w.currentWrites = [] ∨ w.writeBackQueue = []) ∧
      w' = { w.endTask.2 with
        databases := fun dbPath =>
          if dbPath ∈ involvedDbs w.currentWrites then (w.databases dbPath).markWriteEnd
          else w.databases dbPath } := by
  obtain ⟨hok, outputs, rfl⟩ := hcompletes
  unfold finishTask at h
  dsimp only at h
  rw [if_neg (not_not.mpr hok)] at h
  obtain ⟨w'', hcommit, h⟩ := map_eq_some_iff.mp h
  cases h
  refine ⟨rfl, ?_⟩
  unfold commitTaskSegments at hcommit
  split at hcommit
  · next hnone =>
    have hnone : involvedDbs w.currentWrites = [] := hnone
    cases hcommit
    exact ⟨.inl hnone, by simp [hnone, endTask]⟩
  · split at hcommit
    · next hqueue =>
      cases hcommit
      exact ⟨.inr hqueue, rfl⟩
    · cases hcommit

/-- Any other task has them taken back, and its queue cleared. -/
theorem cleanupFailedTaskWrites_spec (w : WorkerAgent) (writes : List WriteRecord) :
    ∃ queue idx, w.cleanupFailedTaskWrites writes = { w with
      writeBackQueue := queue
      localIdx := idx
      databases := fun dbPath =>
        if dbPath ∈ involvedDbs writes then (w.databases dbPath).abortSegment
        else w.databases dbPath } := by
  unfold cleanupFailedTaskWrites
  split
  · next hnone => exact ⟨w.writeBackQueue, w.localIdx, by simp [hnone]⟩
  · exact ⟨_, _, rfl⟩

theorem finishTask_of_not_completes
    (hfails : ¬w.Completes result) (h : w.finishTask result = some (report, w')) :
    report.isComplete = false ∧ ∃ queue idx, w' = { w.endTask.2 with
      writeBackQueue := queue
      localIdx := idx
      databases := fun dbPath =>
        if dbPath ∈ involvedDbs w.currentWrites then (w.databases dbPath).abortSegment
        else w.databases dbPath } := by
  have hclean := w.endTask.2.cleanupFailedTaskWrites_spec w.currentWrites
  cases result with
  | success outputs =>
    have hne : w.lastErrorType ≠ .unknown := fun hok => hfails ⟨hok, outputs, rfl⟩
    unfold finishTask at h
    dsimp only at h
    rw [if_pos hne] at h
    cases h
    exact ⟨rfl, hclean⟩
  | failure error =>
    cases h
    exact ⟨rfl, hclean⟩

end WorkerAgent

end Fly.Agent
