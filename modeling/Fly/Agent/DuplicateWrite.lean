import Mathlib.Data.List.Infix
import Fly.Agent.FreezeProtocol
import Fly.Agent.WorkerTask

/-!
# Writing an object again

A task that runs again writes objects that its first run has left on the worker, complete and with the
hash of the task.  The worker notices and skips the registration; such a write is meant to be harmless.

* `RemoteObjectMeta`, `ObjectTables` — what the master keeps of an object, and what it makes of the report
  of a task;
* `Carries`, `Benign` — an object with the hash of a task, and a harmless second write of it;
* `Continues` — what an operation leaves of the task that runs;
* `rewrite_never_benign` — no second write is harmless: the verdict reaches `finish_task` as an error, and
  the task is reported failed, with the object among the dirty ones.
-/

namespace Fly.Agent

open Fly.Lib Fly.Storage List TaskRun WriteRecord Placement Table

/-! ### The tables of the master -/

structure RemoteObjectMeta where
  workers : List ℕ := []
  sizeBytes : ℤ := 0
  deriving DecidableEq, Repr

/-- `write_provenance_`, and `remote_idx_` of the data service of the master. -/
structure ObjectTables where
  writeProvenance : Provenance := ∅
  remoteIdx : Table String (Table String RemoteObjectMeta) := ∅

namespace ObjectTables

variable (t : ObjectTables)

def updateRemoteIdx (objectName : String) (worker : ℕ) (sizeBytes : ℤ) : ObjectTables :=
  let (dbPath, shortName) := splitFullName objectName
  { t with
    remoteIdx := upsert t.remoteIdx dbPath ∅ fun objects =>
      upsert objects shortName {} fun info =>
        { workers := if worker ∈ info.workers then info.workers else info.workers ++ [worker]
          sizeBytes := if sizeBytes > 0 then sizeBytes else info.sizeBytes } }

def removeRemoteIndex (objectName : String) : ObjectTables :=
  let (dbPath, shortName) := splitFullName objectName
  { t with remoteIdx := modify t.remoteIdx dbPath fun objects => objects.erase shortName }

def provenanceErase (dbPath shortName : String) : ObjectTables :=
  { t with writeProvenance := t.writeProvenance.erase dbPath shortName }

def broadcastObjectRemoved (dbPath objectName : String) : ObjectTables :=
  (t.removeRemoteIndex (dbPath ++ ":" ++ objectName)).provenanceErase dbPath objectName

/-- What `on_task_failed` does for one of the dirty objects. -/
def cleanDirtyObject (object : String) : ObjectTables :=
  let (dbPath, shortName) := splitFullName object
  let t := (t.removeRemoteIndex object).provenanceErase dbPath shortName
  if dbPath = "" then t else t.broadcastObjectRemoved dbPath shortName

/-- `on_task_complete` and `on_task_failed`, for a report of the worker that the task is assigned to.
`streaming` is whether writes become visible when they are registered. -/
def onTaskReport (streaming : Bool) (worker : ℕ) : TaskReport → ObjectTables
  | .complete writtenObjects =>
    if streaming then t
    else writtenObjects.foldl (fun t wo => t.updateRemoteIdx wo.fullName worker wo.sizeBytes) t
  | .failed _ _ dirtyObjects => dirtyObjects.foldl cleanDirtyObject t

/-- Where the master says that an object is. -/
def location (object : ObjectName) : Option RemoteObjectMeta :=
  (AList.lookup object.dbPath t.remoteIdx).bind fun objects => objects.lookup object.shortName

/-- Neither provenance nor location. -/
def Unknown (object : ObjectName) : Prop :=
  t.writeProvenance.lookup object = none ∧ t.location object = none

theorem location_removeRemoteIndex (objectName : String) (object : ObjectName) :
    (t.removeRemoteIndex objectName).location object =
      if (object.dbPath, object.shortName) = splitFullName objectName then none
      else t.location object := by
  rcases hsplit : splitFullName objectName with ⟨dbPath, shortName⟩
  simp only [location, removeRemoteIndex, hsplit, lookup_modify]
  by_cases hdb : object.dbPath = dbPath
  · subst hdb
    cases AList.lookup object.dbPath t.remoteIdx with
    | none => simp
    | some objects => simp [lookup_erase_eq]
  · rw [if_neg hdb, if_neg]
    rintro ⟨⟩
    exact hdb rfl

variable {t} {object : ObjectName}

theorem Unknown.removeRemoteIndex (h : t.Unknown object)
    (objectName : String) : (t.removeRemoteIndex objectName).Unknown object := by
  refine ⟨h.1, ?_⟩
  rw [location_removeRemoteIndex, h.2, ite_self]

theorem Unknown.provenanceErase (h : t.Unknown object)
    (dbPath shortName : String) : (t.provenanceErase dbPath shortName).Unknown object := by
  refine ⟨?_, h.2⟩
  show (t.writeProvenance.erase dbPath shortName).lookup object = none
  rw [Provenance.lookup_erase, h.1, ite_self]

/-- Cleaning an object forgets it, and never brings back another one. -/
theorem unknown_cleanDirtyObject (t : ObjectTables) (object : ObjectName) (name : String)
    (h : t.Unknown object ∨ name = object.full) : (t.cleanDirtyObject name).Unknown object := by
  rcases hsplit : splitFullName name with ⟨dbPath, shortName⟩
  have hfirst : ((t.removeRemoteIndex name).provenanceErase dbPath shortName).Unknown object := by
    rcases h with h | rfl
    · exact (h.removeRemoteIndex name).provenanceErase dbPath shortName
    have hlocation : (t.removeRemoteIndex object.full).location object = none := by
      rw [location_removeRemoteIndex, splitFullName_full, if_pos rfl]
    rw [splitFullName_full, Prod.mk.injEq] at hsplit
    refine ⟨?_, hlocation⟩
    show (t.writeProvenance.erase dbPath shortName).lookup object = none
    rw [Provenance.lookup_erase, if_pos hsplit]
  unfold cleanDirtyObject
  simp only [hsplit]
  split
  · exact hfirst
  · exact (hfirst.removeRemoteIndex _).provenanceErase dbPath shortName

/-- After the report of a failed task nothing is known of its dirty objects. -/
theorem unknown_of_failed (t : ObjectTables) (streaming : Bool) (worker : ℕ) (errorMessage : String)
    (errorType : TaskErrorType) {dirtyObjects : List String}
    (h : t.Unknown object ∨ object.full ∈ dirtyObjects) :
    (t.onTaskReport streaming worker (.failed errorMessage errorType dirtyObjects)).Unknown object := by
  induction dirtyObjects generalizing t with
  | nil => exact h.resolve_right not_mem_nil
  | cons name rest ih =>
    refine ih (t.cleanDirtyObject name) ?_
    rcases h with hunknown | hmem
    · exact .inl (t.unknown_cleanDirtyObject object name (.inl hunknown))
    · rcases mem_cons.mp hmem with hname | hrest
      · exact .inl (t.unknown_cleanDirtyObject object name (.inr hname.symm))
      · exact .inr hrest

end ObjectTables

/-! ### A second write -/

namespace WorkerAgent

/-- The object is complete on the worker, with the write-context hash of a task.  The empty string stands
for no hash, and streams leave none. -/
structure Carries (w : WorkerAgent) (object : ObjectName) (hash : String) : Prop where
  ne_empty : hash ≠ ""
  entries : ∃ entries, w.localIdx.CompleteWith (splitFullName object.full) entries ∧
    (∃ e ∈ entries, e.writeContextHash = hash) ∧
    ∀ e ∈ entries, e.writeContextHash = "" ∨ e.writeContextHash = hash

end WorkerAgent

def TaskReport.dirtyObjects : TaskReport → List String
  | complete _ => []
  | failed _ _ dirtyObjects => dirtyObjects

/-- What a second write of an object should come to, from the worker `before` the write to the worker
`after` the task, and from the tables of the master before the report to those after it. -/
structure Benign (object : ObjectName) (report : TaskReport) (before after : WorkerAgent)
    (known known' : ObjectTables) : Prop where
  complete : report.isComplete = true
  clean : object.full ∉ report.dirtyObjects
  entry : after.localIdx.lookup (splitFullName object.full) =
    before.localIdx.lookup (splitFullName object.full)
  stored : (after.databases object.dbPath).replay.entries.lookup object.shortName =
    (before.databases object.dbPath).replay.entries.lookup object.shortName
  provenance : known'.writeProvenance.lookup object = known.writeProvenance.lookup object
  location : known'.location object = known.location object

/-! ### While a task runs -/

namespace WorkerAgent

variable {w w' : WorkerAgent}

/-- The writes have the hash of the task; none of the open streams is going to take it back. -/
structure HashFixed (w : WorkerAgent) : Prop where
  ne_empty : w.currentWriteHash ≠ ""
  streams : ∀ dbPath object selfSet, w.streams.lookup dbPath = some (object, selfSet) → selfSet = false

/-- The same task runs, if any: errors are not forgotten, nor are writes. -/
structure Continues (w w' : WorkerAgent) : Prop where
  mode : w'.transactionMode = w.transactionMode
  idle : w.transactionMode = false → w'.streams = w.streams
  error : w.lastErrorType ≠ .unknown → w'.lastErrorType ≠ .unknown
  writes : w.currentWrites <+: w'.currentWrites
  hash : w.HashFixed → w'.currentWriteHash = w.currentWriteHash ∧ w'.HashFixed

/-- An operation that leaves alone what `WorkerAgentContext` keeps, the last error and more writes
apart. -/
theorem Continues.of_context (hlast : w'.lastErrorType = .unknown → w.lastErrorType = .unknown)
    (hcontext : (w'.transactionMode, w'.streams, w'.currentWriteHash) =
      (w.transactionMode, w.streams, w.currentWriteHash))
    (hwrites : w.currentWrites <+: w'.currentWrites) : Continues w w' := by
  simp only [Prod.mk.injEq] at hcontext
  obtain ⟨hmode, hstreams, hhash⟩ := hcontext
  refine ⟨hmode, fun _ => hstreams, mt hlast, hwrites, fun hfixed => ⟨hhash, ?_, ?_⟩⟩
  · rw [hhash]
    exact hfixed.ne_empty
  · rw [hstreams]
    exact hfixed.streams

variable {object : ObjectName} {hash timestamp : String} {events : List Event}
  {reply : RegisterReply} {result : TaskExecResult} {op : Op} {report : TaskReport}

theorem continues_writeObject {frozen : Bool} {placement : Placement} {err : WriteErrorType}
    (h : w.writeObject frozen object placement timestamp reply = (err, w')) : Continues w w' := by
  obtain ⟨idx, lastError, hlast, ⟨-, rfl⟩ | ⟨-, rfl⟩⟩ := writeObject_spec h
  · exact .of_context hlast rfl prefix_rfl
  · exact .of_context hlast rfl (prefix_append _ _)

theorem continues_openWriteStream {frozen opened : Bool} (hmode : w.transactionMode = true)
    (h : w.openWriteStream frozen object timestamp reply = some (opened, w')) : Continues w w' := by
  obtain ⟨lastError, hlast, rfl | rfl⟩ := openWriteStream_spec h
  · exact .of_context hlast rfl prefix_rfl
  refine ⟨rfl, fun hidle => absurd hmode (by simp [hidle]), mt hlast, prefix_rfl, fun hfixed => ?_⟩
  have hhash : w.writeHash timestamp = w.currentWriteHash := if_neg hfixed.ne_empty
  refine ⟨hhash, hhash ▸ hfixed.ne_empty, fun dbPath other selfSet hstream => ?_⟩
  rcases lookup_insert_eq_some.mp hstream with ⟨-, heq⟩ | ⟨-, hstream⟩
  · cases heq
    exact decide_eq_false hfixed.ne_empty
  · exact hfixed.streams dbPath other selfSet hstream

theorem continues_commitStream {dbPath : String} {hashSelfSet : Bool}
    {placement : Placement} {adds : List (String × List IndexEntry)} {removes : List String}
    {err : WriteErrorType}
    (hmode : w.transactionMode = true) (hstream : w.streams.lookup dbPath = some (object, hashSelfSet))
    (h : w.commitStream object hashSelfSet placement adds removes timestamp reply = some (err, w')) :
    Continues w w' := by
  obtain ⟨-, database, -, idx, lastError, writes, rfl, hend⟩ := commitStream_spec h
  have hlast : w.lastErrorType ≠ .unknown → lastError ≠ .unknown :=
    hend.elim (fun hrefused _ => hrefused.2.1) fun hdone => mt hdone.2.1
  have hwrites : w.currentWrites <+: writes := by
    rcases hend with ⟨-, -, rfl⟩ | ⟨-, -, size, rfl⟩
    · exact prefix_rfl
    · exact prefix_append _ _
  refine ⟨rfl, fun hidle => absurd hmode (by simp [hidle]), hlast, hwrites, fun hfixed => ?_⟩
  have hhash : (if hashSelfSet then "" else w.currentWriteHash) = w.currentWriteHash := by
    rw [hfixed.streams dbPath object hashSelfSet hstream, if_neg Bool.false_ne_true]
  refine ⟨hhash, hhash.trans_ne hfixed.ne_empty, fun path other selfSet hlookup => ?_⟩
  exact hfixed.streams path other selfSet (lookup_erase_eq_some.mp hlookup).2

theorem beginTask_of_perform (h : w.perform (.beginTask hash) = some (events, w')) :
    w.transactionMode = false ∧ w' = w.beginTask hash := by
  obtain ⟨hmode, h⟩ := Option.ite_none_left_eq_some.mp h
  cases h
  exact ⟨by simpa using hmode, rfl⟩

theorem finishTask_of_perform (h : w.perform (.finishTask result) = some (events, w')) :
    ∃ report, events = [.finished report] ∧ w.finishTask result = some (report, w') := by
  obtain ⟨-, h⟩ := Option.ite_none_right_eq_some.mp h
  obtain ⟨⟨report, w''⟩, hfinish, heq⟩ := Option.map_eq_some_iff.mp h
  cases heq
  exact ⟨report, rfl, hfinish⟩

/-- **One operation.**  A task begins, a task ends, or the task goes on. -/
theorem perform_cases (h : w.perform op = some (events, w')) :
    (∃ hash, op = .beginTask hash ∧ w.transactionMode = false ∧ w' = w.beginTask hash) ∨
    (∃ result report, op = .finishTask result ∧ w.finishTask result = some (report, w')) ∨
    Continues w w' := by
  cases op with
  | beginTask hash => exact .inl ⟨hash, rfl, beginTask_of_perform h⟩
  | writeObject frozen object placement timestamp reply =>
    obtain ⟨-, h⟩ := Option.ite_none_right_eq_some.mp h
    cases h
    exact .inr (.inr (continues_writeObject rfl))
  | openWriteStream frozen object timestamp reply =>
    obtain ⟨hmode, h⟩ := Option.ite_none_right_eq_some.mp h
    obtain ⟨⟨opened, w''⟩, hopen, heq⟩ := Option.map_eq_some_iff.mp h
    cases heq
    exact .inr (.inr (continues_openWriteStream hmode hopen))
  | commitStream dbPath placement adds removes timestamp reply =>
    obtain ⟨hmode, h⟩ := Option.ite_none_right_eq_some.mp h
    split at h
    · next object hashSelfSet hstream =>
      obtain ⟨⟨err, w''⟩, hcommit, heq⟩ := Option.map_eq_some_iff.mp h
      cases heq
      exact .inr (.inr (continues_commitStream hmode hstream hcommit))
    · cases h
  | removeObject frozen object =>
    obtain ⟨-, h⟩ := Option.ite_none_right_eq_some.mp h
    cases h
    refine .inr (.inr ?_)
    unfold removeObject
    split
    all_goals exact .of_context id rfl prefix_rfl
  | onRemoveCommand object =>
    cases h
    exact .inr (.inr (.of_context id rfl prefix_rfl))
  | writeBack adds removes =>
    obtain ⟨w'', hback, heq⟩ := Option.map_eq_some_iff.mp h
    cases heq
    obtain ⟨request, rest, database, idx, -, -, rfl⟩ := writeBack_spec hback
    exact .inr (.inr (.of_context id rfl prefix_rfl))
  | finishTask result =>
    obtain ⟨report, -, hfinish⟩ := finishTask_of_perform h
    exact .inr (.inl ⟨result, report, rfl, hfinish⟩)

/-- Between tasks no stream is open. -/
def Idle (w : WorkerAgent) : Prop := w.transactionMode = false → w.streams = ∅

theorem finishTask_idle (h : w.finishTask result = some (report, w')) : w'.streams = ∅ := by
  by_cases hcompletes : w.Completes result
  · obtain ⟨-, -, rfl⟩ := finishTask_of_completes hcompletes h
    rfl
  · obtain ⟨-, queue, idx, rfl⟩ := finishTask_of_not_completes hcompletes h
    rfl

theorem Idle.perform (hidle : w.Idle) (h : w.perform op = some (events, w')) : w'.Idle := by
  rcases perform_cases h with ⟨hash, -, -, rfl⟩ | ⟨result, report, -, hfinish⟩ | hcontinues
  · exact nofun
  · exact fun _ => finishTask_idle hfinish
  · intro hmode
    rw [hcontinues.mode] at hmode
    rw [hcontinues.idle hmode, hidle hmode]

structure Running (hash : String) (w : WorkerAgent) : Prop where
  mode : w.transactionMode = true
  hash : w.currentWriteHash = hash
  fixed : w.HashFixed

theorem running_beginTask (hne : hash ≠ "") (hidle : w.Idle)
    (hmode : w.transactionMode = false) : Running hash (w.beginTask hash) := by
  refine ⟨rfl, rfl, hne, fun dbPath object selfSet hstream => ?_⟩
  have hstream : w.streams.lookup dbPath = some (object, selfSet) := hstream
  rw [hidle hmode] at hstream
  cases hstream

/-- Within a task, an operation that does not end it. -/
theorem Running.perform (hrunning : Running hash w)
    (hop : ∀ result, op ≠ .finishTask result) (h : w.perform op = some (events, w')) :
    Continues w w' ∧ Running hash w' := by
  rcases perform_cases h with ⟨hash, -, hmode, -⟩ | ⟨result, report, rfl, -⟩ | hcontinues
  · rw [hrunning.mode] at hmode
    cases hmode
  · exact absurd rfl (hop result)
  · obtain ⟨hhash, hfixed⟩ := hcontinues.hash hrunning.fixed
    exact ⟨hcontinues, hcontinues.mode.trans hrunning.mode, hhash.trans hrunning.hash, hfixed⟩

/-- **The verdict on a second write.**  The registration says that all is well, and leaves an error; the
write is recorded as if it were new. -/
theorem commitWrite_of_carries (hcarries : w.Carries object hash)
    (hhash : w.currentWriteHash = hash) (placement : Placement) (timestamp : String)
    (reply : RegisterReply) :
    (w.commitWrite object placement timestamp reply).2.lastErrorType = .writeDuplicateSkipped ∧
      (w.commitWrite object placement timestamp reply).2.currentWrites =
        w.currentWrites ++ [⟨object.full, placement.size⟩] := by
  obtain ⟨hne, entries, ⟨info, hinfo, hcomplete, rfl⟩, ⟨e, he, hsame⟩, hall⟩ := hcarries
  have hwriteHash : w.writeHash timestamp = hash := (if_neg (hhash ▸ hne)).trans hhash
  -- `on_write_started` keeps the entry that is complete
  have hstarted : w.localIdx.onWriteStarted (splitFullName object.full) = w.localIdx := by
    simp only [LocalIdx.onWriteStarted, hinfo, if_pos hcomplete]
  have hother : info.entries.find?
      (fun e => e.writeContextHash ≠ "" ∧ e.writeContextHash ≠ hash) = none := by
    rw [List.find?_eq_none]
    intro e' he'
    rcases hall e' he' with hempty | hequal
    · simp [hempty]
    · simp [hequal]
  have hmatch : info.entries.any (fun e => e.writeContextHash = hash) = true :=
    any_eq_true.mpr ⟨e, he, decide_eq_true hsame⟩
  have hregister : ∀ v : WorkerAgent, v.localIdx = w.localIdx → v.currentWriteHash = hash →
      v.registerWriteWithMaster object false timestamp reply =
        (("", .unknown), { v with lastErrorType := .writeDuplicateSkipped }) := by
    intro v hidx hv
    simp only [registerWriteWithMaster, existingEntries, findLocalEntries, writeHash, hidx, hv,
      hinfo, Option.map_some, Option.getD_some, Bool.false_eq_true, hne, or_self, if_false,
      hother, hmatch, if_true]
  unfold commitWrite
  dsimp only
  rw [hregister _ hstarted hwriteHash]
  exact ⟨rfl, rfl⟩

theorem mem_involvedDbs {writes : List WriteRecord}
    (h : object.full ∈ writes.map fullName) : object.dbPath ∈ involvedDbs writes := by
  obtain ⟨record, hmem, hname⟩ := mem_map.mp h
  refine mem_filter.mpr ⟨mem_map.mpr ⟨record, hmem, ?_⟩, by simp [object.dbPath_ne_empty]⟩
  rw [hname, splitFullName_full]

theorem lookup_foldl_removeLocalIndex (writes : List WriteRecord)
    (idx : LocalIdx (String × String) IndexEntry) (key : String × String)
    (h : idx.lookup key = none ∨ key ∈ writes.map fun record => splitFullName record.fullName) :
    (writes.foldl (fun idx record => idx.removeLocalIndex (splitFullName record.fullName)) idx).lookup
      key = none := by
  induction writes generalizing idx with
  | nil => exact h.resolve_right not_mem_nil
  | cons record rest ih =>
    refine ih _ ?_
    have herase : (idx.removeLocalIndex (splitFullName record.fullName)).lookup key =
        if key = splitFullName record.fullName then none else idx.lookup key :=
      lookup_erase_eq ..
    rw [herase]
    rcases h with hnone | hmem
    · rw [hnone, ite_self]
      exact .inl rfl
    · rcases mem_cons.mp hmem with heq | hrest
      · rw [if_pos heq]
        exact .inl rfl
      · exact .inr hrest

/-- The end of a task that has left an error: its objects are dirty, and gone from the local index. -/
theorem finishTask_of_error {outputs : List String}
    (herror : w.lastErrorType ≠ .unknown) (hwritten : object.full ∈ w.currentWrites.map fullName)
    (h : w.finishTask (.success outputs) = some (report, w')) :
    report = .failed ("Write registration rejected: error_type=" ++ toString (errorCode w.lastErrorType))
        w.lastErrorType (w.currentWrites.map fullName) ∧
      w'.localIdx.lookup (splitFullName object.full) = none := by
  unfold finishTask at h
  dsimp only at h
  rw [if_pos herror] at h
  cases h
  refine ⟨rfl, ?_⟩
  have hinvolved : involvedDbs w.currentWrites ≠ [] := ne_nil_of_mem (mem_involvedDbs hwritten)
  show (cleanupFailedTaskWrites _ w.currentWrites).localIdx.lookup _ = none
  unfold cleanupFailedTaskWrites
  rw [if_neg hinvolved]
  refine lookup_foldl_removeLocalIndex _ _ _ (.inr ?_)
  obtain ⟨record, hmem, hname⟩ := mem_map.mp hwritten
  refine mem_map.mpr ⟨record, mem_filter.mpr ⟨hmem, ?_⟩, by rw [hname]⟩
  rw [hname, splitFullName_full]
  simp [object.dbPath_ne_empty]

end WorkerAgent

/-! ### Whole tasks -/

open WorkerAgent

variable {s s' : TaskRun} {ops : List Op} {hash : String}

theorem TaskRun.perform_of_step {op : Op} (h : s.step op = some s') :
    ∃ events, s.worker.perform op = some (events, s'.worker) ∧ s'.history = s.history ++ events := by
  obtain ⟨⟨events, worker⟩, hperform, rfl⟩ := Option.map_eq_some_iff.mp h
  exact ⟨events, hperform, rfl⟩

theorem idle_of_run (h : run step {} ops = some s) :
    s.worker.Idle := by
  refine run_invariant (I := fun s => s.worker.Idle) (fun op _ s s' hidle hstep => ?_) (fun _ => rfl) h
  obtain ⟨events, hperform, -⟩ := perform_of_step hstep
  exact hidle.perform hperform

def WithinTask (ops : List Op) : Prop := ∀ result, .finishTask result ∉ ops

theorem running_of_run (hwithin : WithinTask ops)
    (hrunning : Running hash s.worker) (h : run step s ops = some s') :
    Running hash s'.worker := by
  refine run_invariant (I := fun s => Running hash s.worker) (fun op hop s s' hrunning hstep => ?_)
    hrunning h
  obtain ⟨events, hperform, -⟩ := perform_of_step hstep
  exact (hrunning.perform (fun result heq => hwithin result (heq ▸ hop)) hperform).2

/-- An error and a write that is recorded stay until the task ends. -/
theorem rejected_of_run (name : String)
    (hwithin : WithinTask ops) (hrunning : Running hash s.worker) (herror : s.worker.lastErrorType ≠ .unknown)
    (hwritten : name ∈ s.worker.currentWrites.map fullName)
    (h : run step s ops = some s') :
    s'.worker.lastErrorType ≠ .unknown ∧ name ∈ s'.worker.currentWrites.map fullName := by
  refine (run_invariant (I := fun s => Running hash s.worker ∧ s.worker.lastErrorType ≠ .unknown ∧
    name ∈ s.worker.currentWrites.map fullName) (fun op hop s s' hinv hstep => ?_)
    ⟨hrunning, herror, hwritten⟩ h).2
  obtain ⟨hrunning, herror, hwritten⟩ := hinv
  obtain ⟨events, hperform, -⟩ := perform_of_step hstep
  obtain ⟨hcontinues, hrunning'⟩ :=
    hrunning.perform (fun result heq => hwithin result (heq ▸ hop)) hperform
  exact ⟨hrunning', hcontinues.error herror, (hcontinues.writes.map _).subset hwritten⟩

/-- **No second write is harmless.**  A task with the hash of an object that is complete on the worker
writes the object through `commit_write`.  However the task goes on and whatever the master answers, the
task is reported failed although it has done its work, the object is dirty and gone from the local index,
and the master forgets its provenance and its location. -/
theorem rewrite_never_benign {earlier before after : List Op} {start atWrite finish : TaskRun}
    {hash timestamp : String} {object : ObjectName} {placement : Placement} {reply : RegisterReply}
    {outputs : List String} (hstart : run step {} earlier = some start)
    (hbefore : run step start (.beginTask hash :: before) = some atWrite)
    (hafter : run step atWrite (.writeObject false object placement timestamp reply ::
      (after ++ [.finishTask (.success outputs)])) = some finish)
    (hwithin : WithinTask before ∧ WithinTask after) (hcarries : atWrite.worker.Carries object hash) :
    ∃ history report, finish.history = history ++ [.finished report] ∧
      report.isComplete = false ∧ object.full ∈ report.dirtyObjects ∧
      finish.worker.localIdx.lookup (splitFullName object.full) = none ∧
      ∀ (known : ObjectTables) (streaming : Bool) (worker : ℕ),
        (known.onTaskReport streaming worker report).Unknown object ∧
        ¬Benign object report atWrite.worker finish.worker known
          (known.onTaskReport streaming worker report) := by
  -- the task has its hash when it writes
  obtain ⟨begun, hbegin, hbefore⟩ := Option.bind_eq_some_iff.mp hbefore
  obtain ⟨events, hbegin, -⟩ := perform_of_step hbegin
  have hbegun : Running hash begun.worker := by
    obtain ⟨hmode, hworker⟩ := beginTask_of_perform hbegin
    rw [hworker]
    exact running_beginTask hcarries.ne_empty (idle_of_run hstart) hmode
  have hrunning := running_of_run hwithin.1 hbegun hbefore
  -- the write leaves the error and the record
  obtain ⟨written, hwrite, hafter⟩ := Option.bind_eq_some_iff.mp hafter
  obtain ⟨events, hwrite, -⟩ := perform_of_step hwrite
  have hwritten := (hrunning.perform (fun _ heq => by cases heq) hwrite).2
  simp only [perform, hrunning.mode, if_true] at hwrite
  obtain ⟨-, hwrite⟩ := Prod.mk.inj (Option.some.inj hwrite)
  obtain ⟨herror, hrecord⟩ :=
    commitWrite_of_carries hcarries hrunning.hash placement timestamp reply
  have hcommit : (atWrite.worker.commitWrite object placement timestamp reply).2 = written.worker :=
    hwrite
  rw [hcommit] at herror hrecord
  -- nothing takes them back before the task ends
  obtain ⟨last, hlast, hfinish⟩ := run_concat.mp hafter
  obtain ⟨herror, hdirty⟩ := rejected_of_run object.full hwithin.2 hwritten
    (by rw [herror]; decide) (by rw [hrecord]; simp) hlast
  obtain ⟨events, hfinish, hhistory⟩ := perform_of_step hfinish
  obtain ⟨report, rfl, hended⟩ := finishTask_of_perform hfinish
  obtain ⟨rfl, hgone⟩ := finishTask_of_error herror hdirty hended
  refine ⟨last.history, _, hhistory, rfl, hdirty, hgone, fun known streaming worker => ⟨?_, ?_⟩⟩
  · exact known.unknown_of_failed streaming worker _ _ (.inr hdirty)
  · intro hbenign
    exact hbenign.clean hdirty

/-- An object is written, and the task that has written it runs once more. -/
def firstRun : List Op :=
  [.beginTask "h1",
    .writeObject false ⟨"/work", "matrix", by decide, by decide⟩ ⟨1, 0, 8, 1, "host"⟩ "t" .accepted,
    .writeBack [("matrix", [entry ⟨1, 0, 8, 1, "host"⟩ "matrix" "h1"])] [],
    .finishTask (.success [])]

def secondRun : List Op :=
  [.writeObject false ⟨"/work", "matrix", by decide, by decide⟩ ⟨1, 8, 8, 1, "host"⟩ "t" .accepted,
    .finishTask (.success [])]

theorem rewrite_secondRun : ∃ start atWrite finish, run step {} firstRun = some start ∧
      run step start [.beginTask "h1"] = some atWrite ∧
      run step atWrite secondRun = some finish ∧
      atWrite.worker.Carries ⟨"/work", "matrix", by decide, by decide⟩ "h1" ∧
      ∃ history report, finish.history = history ++ [.finished report] ∧ report.isComplete = false := by
  have hstart : ∃ start, run step {} firstRun = some start := ⟨_, rfl⟩
  obtain ⟨start, hstart⟩ := hstart
  have hbefore : ∃ atWrite, run step start [.beginTask "h1"] = some atWrite ∧
      atWrite.worker.Carries ⟨"/work", "matrix", by decide, by decide⟩ "h1" := by
    cases hstart
    exact ⟨_, rfl, by decide, [entry ⟨1, 0, 8, 1, "host"⟩ "matrix" "h1"], ⟨_, rfl, rfl, rfl⟩,
      by simp [entry], by simp [entry]⟩
  obtain ⟨atWrite, hbefore, hcarries⟩ := hbefore
  have hafter : ∃ finish, run step atWrite
      (.writeObject false ⟨"/work", "matrix", by decide, by decide⟩ ⟨1, 8, 8, 1, "host"⟩ "t" .accepted ::
        ([] ++ [.finishTask (.success [])])) = some finish := by
    cases hstart
    cases hbefore
    exact ⟨_, rfl⟩
  obtain ⟨finish, hafter⟩ := hafter
  obtain ⟨history, report, hhistory, hfailed, -⟩ := rewrite_never_benign hstart hbefore hafter
    ⟨fun _ => not_mem_nil, fun _ => not_mem_nil⟩ hcarries
  exact ⟨start, atWrite, finish, hstart, hbefore, hafter, hcarries, history, report, hhistory, hfailed⟩

/-- The second run is reported failed, and the object is lost to the worker and to the master. -/
theorem secondRun_loses_object :
    ∃ atWrite finish, run step {} (firstRun ++ [.beginTask "h1"]) = some atWrite ∧
      atWrite.worker.localIdx.hasLocalObject ("/work", "matrix") = true ∧
      run step atWrite secondRun = some finish ∧
      finish.history = [ .wrote "/work" (entry ⟨1, 0, 8, 1, "host"⟩ "matrix" "h1"),
        .finished (.complete [⟨"/work:matrix", 8⟩]),
        .wrote "/work" (entry ⟨1, 8, 8, 1, "host"⟩ "matrix" "h1"),
        .finished (.failed "Write registration rejected: error_type=6" .writeDuplicateSkipped
          ["/work:matrix"])] ∧
      finish.worker.localIdx.hasLocalObject ("/work", "matrix") = false ∧
      ∃ known : ObjectTables,
        known.location ⟨"/work", "matrix", by decide, by decide⟩ = some { workers := [1], sizeBytes := 8 } ∧
        (known.onTaskReport true 1 (.failed "Write registration rejected: error_type=6"
          .writeDuplicateSkipped ["/work:matrix"])).location ⟨"/work", "matrix", by decide, by decide⟩ =
            none :=
  ⟨_, _, rfl, rfl, rfl, rfl, rfl, .updateRemoteIdx {} "/work:matrix" 1 8, rfl, rfl⟩

end Fly.Agent
