import Mathlib.Logic.Function.Basic
import Fly.Storage.IndexRemoval
import Fly.Agent.DuplicateWrite

/-!
# Removing objects

An object is removed by three routes: the process that calls `remove_object` takes it out of its own
index, the master out of its tables, and the workers that hold a copy are told by a command.

* `Writers` — the regular and the temporary index of a database, with `removeObject` and
  `removeIndexEntry`;
* `Process` — the databases of a process, its local index and its write-back queue;
* `Cluster` — the master (process 0) and its workers, with the messages that are under way; a request
  that a disconnected worker makes waits, and a call whose message is lost with the connection times out;
* `onMasterRemove`, `handle`, `receive` — the two sides of the removal protocol;
* `rebuild`, `restore` — the index files of a worker are loaded again;
* `Cluster.step` — one step.
-/

open Fly.Lib

namespace Fly.Storage

deriving instance DecidableEq for ObjectName

namespace LocalIdx

variable {κ ε : Type} [DecidableEq κ]

def onTempWriteStarted (idx : LocalIdx κ ε) (k : κ) : LocalIdx κ ε := idx.insert k {}

def onTempWrite (idx : LocalIdx κ ε) (k : κ) (diskEntry : Option ε) : LocalIdx κ ε :=
  Table.modify idx k fun info =>
    { info with entries := (diskEntry.map ([·])).getD info.entries, completionState := .complete }

end LocalIdx

/-- An entry is not restored beside one with the same hash. -/
def restoresDuplicate (known : List IndexEntry) (entry : IndexEntry) : Bool :=
  entry.writeContextHash ≠ "" && known.any fun e => e.writeContextHash = entry.writeContextHash

/-- The name under which an entry is restored. -/
def restoredName (name : String) : String :=
  if (splitFullName name).1 = "" then name else (splitFullName name).2

/-- `restore_entries`, for the entries of one object. -/
def restoreEntries (info : LocalObjectInfo IndexEntry) (entries : List IndexEntry) :
    LocalObjectInfo IndexEntry :=
  { entries := entries.foldl (fun known e => if restoresDuplicate known e then known else known ++ [e])
      info.entries
    completionState := .complete
    flushed := true }

/-- `restore_temp_entries`, for one entry. -/
def restoreTempEntry (info : LocalObjectInfo IndexEntry) (entry : IndexEntry) :
    LocalObjectInfo IndexEntry :=
  if restoresDuplicate info.entries entry then info
  else { entries := info.entries ++ [entry], completionState := .complete, flushed := true }

/-! ### The two indexes of a database -/

structure Writers where
  writer : Database := {}
  tempWriter : Database := {}

namespace Writers

variable (d : Writers) (name : String)

/-- The part of `Database::remove_object` that is done by the caller: an object in the temporary index is
not looked for in the other one. -/
def removeObject : Writers :=
  if (d.tempWriter.index.removeEntry name).1 then
    { d with tempWriter := d.tempWriter.removeEntry name }
  else { d with writer := d.writer.removeEntry name }

/-- `Database::remove_index_entry`, for a command of the master: only the regular index. -/
def removeIndexEntry : Writers :=
  { d with writer := d.writer.removeEntry name }

def markWriteEnd : Writers := ⟨d.writer.markWriteEnd, d.tempWriter.markWriteEnd⟩

/-- The object is in one of the two. -/
def Indexed : Prop := d.writer.Indexed name ∨ d.tempWriter.Indexed name

instance : Decidable (d.Indexed name) := inferInstanceAs (Decidable (_ ∨ _))

/-- Neither has a removal that waits for a `save`. -/
def Saved : Prop := d.writer.Saved ∧ d.tempWriter.Saved

instance : Decidable d.Saved := inferInstanceAs (Decidable (_ ∧ _))

end Writers

end Fly.Storage

namespace Fly.Agent

open Fly.Storage

/-! ### Writes and messages -/

/-- How an object is written. -/
inductive Route where
  /-- the permission a stream asks for when it is opened -/
  | permission
  /-- registered, then carried out by the write-back queue -/
  | queued
  /-- a stream: in the index file before it is registered -/
  | streamed
  /-- a temporary object: in the temporary index file before it is registered -/
  | temporary
  deriving DecidableEq, Repr

/-- A write has the hash of its task, or a time stamp. -/
structure ObjectWrite where
  object : ObjectName
  hash : String
  placement : Placement
  route : Route
  hash_ne : hash ≠ ""

/-- Streams leave the hash of their entries empty. -/
def ObjectWrite.entry (w : ObjectWrite) : IndexEntry :=
  w.placement.entry w.object.shortName (if w.route = .queued then w.hash else "")

inductive MasterRequest where
  | writeRegister (w : ObjectWrite)
  | removeRequest (object : ObjectName)

/-- `refused` stands for a time-out, too. -/
inductive MasterAnswer where
  | registered (w : ObjectWrite)
  | refused (w : ObjectWrite)
  | removeAck (object : ObjectName) (notFound : Bool)
  | removeCommand (object : ObjectName)

/-- What a call gets whose request was lost. -/
def MasterRequest.timeOut : MasterRequest → MasterAnswer
  | writeRegister w => .refused w
  | removeRequest object => .removeAck object false

/-- What a call gets whose answer was lost; nobody waits for a command. -/
def MasterAnswer.timeOut : MasterAnswer → Option MasterAnswer
  | registered w => some (.refused w)
  | refused w => some (.refused w)
  | removeAck object _ => some (.removeAck object false)
  | removeCommand _ => none

/-! ### A process -/

structure Process where
  databases : String → Writers := fun _ => {}
  localIdx : LocalIdx (String × String) IndexEntry := ∅
  writeBackQueue : List ObjectWrite := []

/-- What the own local index says to a registration. -/
inductive LocalCheck where
  | ask
  | duplicate
  | mismatch
  deriving DecidableEq, Repr

namespace Process

variable (p : Process) (w : ObjectWrite) (object : ObjectName)

def setWriters (dbPath : String) (writers : Writers) : Process :=
  { p with databases := Function.update p.databases dbPath writers }

/-- A write up to its registration. -/
def startWrite (inTask : Bool) (adds : List (String × List IndexEntry))
    (removes : List String) : Option Process :=
  let key := splitFullName w.object.full
  let d := p.databases w.object.dbPath
  match w.route with
  | .permission => some p
  | .queued => some { p with localIdx := p.localIdx.onWriteStarted key }
  | .streamed =>
    -- its last unit stands behind the others in the write-back queue
    if p.writeBackQueue.isEmpty then
      ((if inTask then d.writer.openSegment else d.writer).addAndFlush w.entry adds removes).map
        fun writer =>
          { p.setWriters w.object.dbPath { d with writer } with
            localIdx := p.localIdx.onWriteStarted key }
    else none
  | .temporary =>
    ((if inTask then d.tempWriter.openSegment else d.tempWriter).addAndFlush w.entry adds removes).map
      fun tempWriter =>
        { p.setWriters w.object.dbPath { d with tempWriter } with
          localIdx := (p.localIdx.onTempWriteStarted key).onTempWrite key
            (tempWriter.index.findEntry w.object.shortName) }

/-- The check of `register_write_with_master`. -/
def checkLocal : LocalCheck :=
  let existing := ((p.localIdx.lookup (splitFullName w.object.full)).map LocalObjectInfo.entries).getD []
  if w.route = .permission then .ask
  else if existing.any fun e => e.writeContextHash ≠ "" ∧ e.writeContextHash ≠ w.hash then .mismatch
  else if existing.any fun e => e.writeContextHash = w.hash then .duplicate
  else .ask

/-- The local index takes over what the writer has of the object. -/
def completeWrite : Process :=
  let key := splitFullName object.full
  let localIdx :=
    match (p.databases object.dbPath).writer.index.findAllEntries object.shortName with
    | some entries => p.localIdx.onWriteCompleted key entries
    | none => p.localIdx
  { p with localIdx := localIdx.onObjectFlushed key }

def onRegistered : Process :=
  match w.route with
  | .permission | .temporary => p
  | .queued => { p with writeBackQueue := p.writeBackQueue ++ [w] }
  | .streamed => p.completeWrite w.object

def onRefused : Process :=
  if w.route = .permission then p
  else { p with localIdx := p.localIdx.onWriteFailed (splitFullName w.object.full) }

def writeBack (inTask : Bool) (adds : List (String × List IndexEntry))
    (removes : List String) : Option Process :=
  match p.writeBackQueue with
  | [] => none
  | w :: rest =>
    let d := p.databases w.object.dbPath
    ((if inTask then d.writer.openSegment else d.writer).addAndFlush w.entry adds removes).map
      fun writer =>
        ({ p.setWriters w.object.dbPath { d with writer } with writeBackQueue := rest }).completeWrite
          w.object

/-- `remove_object` up to the request. -/
def removeObject : Process :=
  p.setWriters object.dbPath ((p.databases object.dbPath).removeObject object.shortName)

def removeLocalIndex : Process :=
  { p with localIdx := p.localIdx.removeLocalIndex (splitFullName object.full) }

def onRemoveCommand : Process :=
  (p.removeLocalIndex object).setWriters object.dbPath
    ((p.databases object.dbPath).removeIndexEntry object.shortName)

def receive : MasterAnswer → Process
  | .registered w => p.onRegistered w
  | .refused w => p.onRefused w
  -- the end of `remove_object`, whatever the answer
  | .removeAck object _ => p.removeLocalIndex object
  | .removeCommand object => p.onRemoveCommand object

def markWriteEnd (dbPath : String) : Process :=
  p.setWriters dbPath (p.databases dbPath).markWriteEnd

/-- `on_idx_load_command`: what the index files of a writer give goes to the local index. -/
def restore (dbPath : String) (files : Writers) : Process :=
  let regular := (Table.pairs files.writer.replay.entries).foldl (fun idx object =>
    Table.upsert idx (dbPath, restoredName object.1) {} (restoreEntries · object.2)) p.localIdx
  let temporary := (Table.pairs files.tempWriter.replay.entries).foldl (fun idx object =>
    object.2.foldl (fun idx entry => Table.upsert idx (dbPath, object.1) {} (restoreTempEntry · entry)) idx)
    regular
  { p with localIdx := temporary }

end Process

/-! ### The master -/

namespace ObjectTables

variable (t : ObjectTables)

/-- `do_write_register`, for a registration that is visible at once; none if it is refused.  `frozen` is
whether the database is closed. -/
def doWriteRegister (frozen : Bool) (worker : ℕ) (w : ObjectWrite) : Option ObjectTables :=
  if frozen then none
  else
    let (provDb, provShort) := splitFullName w.object.full
    match t.writeProvenance.checkAndRegister provDb provShort w.hash with
    | .error _ => none
    | .ok provenance =>
      let t := { t with writeProvenance := provenance }
      some (if w.route = .permission then t else t.updateRemoteIdx w.object.full worker w.placement.size)

def hasRemoteLocation (object : ObjectName) : Bool :=
  (t.location object).any fun info => !info.workers.isEmpty

def getRemoteWorkers (object : ObjectName) : List ℕ :=
  ((t.location object).map RemoteObjectMeta.workers).getD []

/-- What the two tables lose by `on_master_remove`. -/
def onMasterRemove (object : ObjectName) : ObjectTables :=
  (t.removeRemoteIndex object.full).provenanceErase object.dbPath object.shortName

/-- `rebuild_remote_idx_for_worker`, for the objects of one file. -/
def rebuild (dbPath : String) (worker : ℕ) (names : List String) : ObjectTables :=
  names.foldl (fun t name => t.updateRemoteIdx (dbPath ++ ":" ++ name) worker 0) t

end ObjectTables

inductive MasterEvent where
  | accepted (object : ObjectName)
  | removed (object : ObjectName)
  deriving DecidableEq

/-- The master is process 0.  What it asks itself goes the same way as the requests of the workers. -/
structure Cluster (n : ℕ) where
  tables : ObjectTables := {}
  processes : Fin (n + 1) → Process := fun _ => {}
  alive : Fin (n + 1) → Bool := fun _ => true
  connected : Fin (n + 1) → Bool := fun q => q = 0
  requests : List (Fin (n + 1) × MasterRequest) := []
  answers : List (Fin (n + 1) × MasterAnswer) := []
  history : List MasterEvent := []

namespace Cluster

variable {n : ℕ} (s : Cluster n)

def set (p : Fin (n + 1)) (process : Process) : Cluster n :=
  { s with processes := Function.update s.processes p process }

/-- The connection to a worker, if there is one. -/
def workerToConn (worker : ℕ) : Option (Fin (n + 1)) :=
  if h : worker < n + 1 then
    if worker ≠ 0 ∧ s.connected ⟨worker, h⟩ then some ⟨worker, h⟩ else none
  else none

abbrev master : Fin (n + 1) := 0

/-- The master does not look into its own local index first. -/
def write (p : Fin (n + 1)) (w : ObjectWrite) (inTask : Bool)
    (adds : List (String × List IndexEntry)) (removes : List String) : Option (Cluster n) :=
  if s.alive p then
    ((s.processes p).startWrite w inTask adds removes).map fun process =>
      match if p = 0 then .ask else process.checkLocal w with
      | .ask => { s.set p process with requests := s.requests ++ [(p, .writeRegister w)] }
      | .duplicate => s.set p (process.onRegistered w)
      | .mismatch => s.set p (process.onRefused w)
  else none

/-- The answer is whether the object was known. -/
def onMasterRemove (object : ObjectName) : Bool × Cluster n :=
  let found := (s.processes 0).localIdx.hasLocalObject (splitFullName object.full) ||
    s.tables.hasRemoteLocation object
  -- a holder without a connection is passed over
  let commands := (s.tables.getRemoteWorkers object).filterMap fun worker =>
    (s.workerToConn worker).map fun q => (q, .removeCommand object)
  (found,
    { s.set 0 ((s.processes 0).removeLocalIndex object) with
      answers := s.answers ++ commands
      tables := s.tables.onMasterRemove object
      history := s.history ++ [.removed object] })

/-- The master handles a request of `p`. -/
def onRequest (p : Fin (n + 1)) (frozen : Bool) : MasterRequest → Cluster n
  | .writeRegister w =>
    match s.tables.doWriteRegister frozen p w with
    | none => { s with answers := s.answers ++ [(p, .refused w)] }
    | some tables =>
      { s with
        tables
        answers := s.answers ++ [(p, .registered w)]
        history := s.history ++ [.accepted w.object] }
  | .removeRequest object =>
    let (found, s) := s.onMasterRemove object
    { s with answers := s.answers ++ [(p, .removeAck object !found)] }

/-- The requests are handled in any order. -/
def handle (i : ℕ) (frozen : Bool) : Option (Cluster n) :=
  match s.requests[i]? with
  | some (p, request) =>
    if s.connected p then
      some (({ s with requests := s.requests.eraseIdx i }).onRequest p frozen request)
    else none
  | none => none

/-- The answers are delivered in any order. -/
def receive (i : ℕ) : Option (Cluster n) :=
  match s.answers[i]? with
  | some (q, answer) =>
    some (({ s with answers := s.answers.eraseIdx i }).set q ((s.processes q).receive answer))
  | none => none

def connect (q : Fin (n + 1)) : Option (Cluster n) :=
  if s.alive q then some { s with connected := Function.update s.connected q true } else none

/-- All that is under way between the master and the worker is lost. -/
def disconnect (q : Fin (n + 1)) : Option (Cluster n) :=
  if q ≠ 0 ∧ s.connected q then
    some { s with
      connected := Function.update s.connected q false
      requests := s.requests.filter (·.1 ≠ q)
      answers := s.answers.filter (·.1 ≠ q) ++
        (s.requests.filter (·.1 = q)).map (fun r => (q, r.2.timeOut)) ++
        (s.answers.filter (·.1 = q)).filterMap fun a => a.2.timeOut.map fun answer => (q, answer) }
  else none

/-- A worker dies; its files stay.  Its indexes stay as they were, to say what they had not saved. -/
def die (q : Fin (n + 1)) : Option (Cluster n) :=
  if q ≠ 0 ∧ s.alive q then
    some { s.set q { s.processes q with localIdx := ∅, writeBackQueue := [] } with
      alive := Function.update s.alive q false
      connected := Function.update s.connected q false
      requests := s.requests.filter (·.1 ≠ q)
      answers := s.answers.filter (·.1 ≠ q) }
  else none

/-- The master maps the objects in the index files of `writer` to a worker. -/
def rebuild (dbPath : String) (writer worker : Fin (n + 1)) : Option (Cluster n) :=
  if writer ≠ 0 then
    let files := (s.processes writer).databases dbPath
    some { s with
      tables := (s.tables.rebuild dbPath worker
        ((Table.pairs files.writer.replay.entries).map Prod.fst)).rebuild dbPath worker
          ((Table.pairs files.tempWriter.replay.entries).map Prod.fst) }
  else none

/-- A process loads the index files of `writer`. -/
def restore (dbPath : String) (writer p : Fin (n + 1)) : Option (Cluster n) :=
  if writer ≠ 0 ∧ s.alive p then
    some (s.set p ((s.processes p).restore dbPath ((s.processes writer).databases dbPath)))
  else none

end Cluster

inductive ClusterStep (n : ℕ) where
  | write (p : Fin (n + 1)) (w : ObjectWrite) (inTask : Bool) (adds : List (String × List IndexEntry))
      (removes : List String)
  | writeBack (p : Fin (n + 1)) (inTask : Bool) (adds : List (String × List IndexEntry))
      (removes : List String)
  | endTask (p : Fin (n + 1)) (dbPath : String)
  | remove (p : Fin (n + 1)) (object : ObjectName)
  | handle (i : ℕ) (frozen : Bool)
  | receive (i : ℕ)
  | connect (q : Fin (n + 1))
  | disconnect (q : Fin (n + 1))
  | die (q : Fin (n + 1))
  | rebuild (dbPath : String) (writer worker : Fin (n + 1))
  | restore (dbPath : String) (writer p : Fin (n + 1))

namespace Cluster

variable {n : ℕ}

def step (s : Cluster n) : ClusterStep n → Option (Cluster n)
  | .write p w inTask adds removes => s.write p w inTask adds removes
  | .writeBack p inTask adds removes =>
    if s.alive p then ((s.processes p).writeBack inTask adds removes).map (s.set p) else none
  | .endTask p dbPath => if s.alive p then some (s.set p ((s.processes p).markWriteEnd dbPath)) else none
  | .remove p object =>
    if s.alive p then
      some { s.set p ((s.processes p).removeObject object) with
        requests := s.requests ++ [(p, .removeRequest object)] }
    else none
  | .handle i frozen => s.handle i frozen
  | .receive i => s.receive i
  | .connect q => s.connect q
  | .disconnect q => s.disconnect q
  | .die q => s.die q
  | .rebuild dbPath writer worker => s.rebuild dbPath writer worker
  | .restore dbPath writer p => s.restore dbPath writer p

end Cluster

end Fly.Agent
