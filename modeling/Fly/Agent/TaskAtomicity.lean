import Fly.Agent.WorkerTask

/-!
# Task-level atomicity of writes

After a task has finished, the index files should hold the accepted writes of the tasks that were reported
complete, without what was removed since, and nothing else.

* `Ledger`, `ledger` — that purpose, as a function of what the outside has seen;
* `Tracks` — what connects the index of a database with its ledger while a task runs;
* `SafeCommit`, `SafeAbort`, `SafeFinish` — when the end of a task leaves the right entries;
* `reload_eq_ledger_iff` — the files hold the right entries after every end of a task **iff** every end is
  safe: nothing in a segment that is closed comes from elsewhere, and everything that was removed is gone
  from the file.
-/

namespace Fly.Agent

open Fly.Lib Fly.Storage List Option Database Function WorkerAgent TaskRun WriteRequest

/-! ### What the index files should hold -/

def isRemoval : Change String IndexEntry → Bool
  | .add .. => false
  | .remove _ => true

/-- The entries of a database that should be visible, and what the running task has changed: the writes
that were accepted, and the removals. -/
structure Ledger where
  committed : Table String (List IndexEntry) := ∅
  changes : List (Change String IndexEntry) := []

namespace Ledger

/-- Writes count if the task completes; removals count in any case. -/
def close (l : Ledger) (complete : Bool) : Ledger :=
  { committed :=
      (if complete then l.changes else l.changes.filter isRemoval).foldl applyChange l.committed }

def note (l : Ledger) (change : Change String IndexEntry) : Ledger :=
  { l with changes := l.changes ++ [change] }

def record (dbPath : String) (l : Ledger) : Event → Ledger
  | .wrote path entry => if path = dbPath then l.note (.add entry.objectName [entry]) else l
  | .removed path name => if path = dbPath then l.note (.remove name) else l
  | .finished report => l.close report.isComplete

end Ledger

open Ledger

def ledger (history : List Event) (dbPath : String) : Ledger := history.foldl (record dbPath) {}

theorem ledger_concat (history : List Event) (event : Event) (dbPath : String) :
    ledger (history ++ [event]) dbPath = (ledger history dbPath).record dbPath event :=
  foldl_concat ..

variable {changes : List (Change String IndexEntry)} {name path : String}
  {adds : List (String × List IndexEntry)} {removes : List String} {op : Op} {ops : List Op}

theorem mem_of_lastChange {change : Change String IndexEntry} (h : lastChange changes name = some change) :
    change ∈ changes ∧ change.name = name :=
  ⟨mem_reverse.mp (mem_of_find?_eq_some h), by simpa using List.find?_some h⟩

theorem notMem_of_lastChange_eq_none (h : lastChange changes name = none) (change : Change String IndexEntry)
    (hname : change.name = name) : change ∉ changes := by
  intro hmem
  have hnone := List.find?_eq_none.mp h change (mem_reverse.mpr hmem)
  simp [hname] at hnone

/-! ### A database and its ledger -/

/-- How a database stands to its ledger while a task runs; `queued` are the entries of writes that still
wait in the write-back queue.  Nothing is said about a segment with writes of other tasks in it, and
nothing about the writes of a task that is going to be reported as failed (`ok` does not hold). -/
structure Tracks (ok : Prop) (l : Ledger) (queued : List IndexEntry) (d : Database) : Prop where
  active : d.segmentActive = d.replay.inSegment
  saved : d.index.pendingAdds = ∅
  kept : ∀ name, .remove name ∉ l.changes → d.replay.entries.lookup name = l.committed.lookup name
  removes : ∀ name ∈ d.index.pendingRemoves, .remove name ∈ l.changes ∨ d.replay.entries.lookup name = none
  written : ok → ∀ name added, lastChange l.changes name = some (.add name added) →
    (∀ e ∈ queued, e.objectName ≠ name) →
      d.replay.inSegment = true ∧ d.replay.pending.lookup name = some added ∧ name ∉ d.index.pendingRemoves
  waiting : ok → ∀ name added, lastChange l.changes name = some (.add name added) →
    ∀ e, (queued.filter (·.objectName = name)).getLast? = some e → added = [e]

namespace Tracks

variable {ok ok' : Prop} {l : Ledger} {queued : List IndexEntry} {d d' : Database}

section

variable (h : Tracks ok l queued d)

include h

theorem weaken (hok : ok' → ok) : Tracks ok' l queued d :=
  { h with
    written := fun hok' => h.written (hok hok')
    waiting := fun hok' => h.waiting (hok hok') }

/-- Once the task is going to fail, its queue does not matter. -/
theorem of_not_ok (hok : ¬ok') (queued' : List IndexEntry) :
    Tracks ok' l queued' d :=
  { h with
    written := fun hok' => absurd hok' hok
    waiting := fun hok' => absurd hok' hok }

/-- Without writes of the task, neither matters. -/
theorem of_no_adds (hnone : ∀ name added, .add name added ∉ l.changes) :
    Tracks ok' l queued d :=
  { h with
    written := fun _ name added hlast => absurd (mem_of_lastChange hlast).1 (hnone name added)
    waiting := fun _ name added hlast => absurd (mem_of_lastChange hlast).1 (hnone name added) }

theorem openSegment : Tracks ok l queued d.openSegment ∧ d.openSegment.segmentActive = true := by
  unfold Database.openSegment
  split
  · next hactive => exact ⟨h, hactive⟩
  rename_i hactive
  rw [Bool.not_eq_true] at hactive
  have hreplay := d.replay_markWriteBegin
  refine ⟨⟨?_, h.saved, ?_, ?_, ?_, h.waiting⟩, rfl⟩
  · rw [hreplay]
    rfl
  · rw [hreplay]
    exact h.kept
  · rw [hreplay]
    exact h.removes
  · -- a write of the task would have opened the segment
    intro hok name added hlast hfree
    have hinside := (h.written hok name added hlast hfree).1
    rw [← h.active, hactive] at hinside
    exact absurd hinside Bool.false_ne_true

/-- A write that is accepted and waits in the queue. -/
theorem enqueue (entry : IndexEntry) :
    Tracks ok (l.note (.add entry.objectName [entry])) (queued ++ [entry]) d where
  active := h.active
  saved := h.saved
  kept name hname := h.kept name fun hmem => hname (mem_append_left _ hmem)
  removes name hname := (h.removes name hname).imp_left (mem_append_left _)
  written hok name added hlast hfree := by
    have hentry : entry.objectName ≠ name := hfree entry (by simp)
    rw [note, lastChange_concat, Change.name_add, if_neg hentry] at hlast
    exact h.written hok name added hlast fun e he => hfree e (mem_append_left _ he)
  waiting hok name added hlast e he := by
    rw [note, lastChange_concat, Change.name_add] at hlast
    by_cases hentry : entry.objectName = name
    · simp only [hentry, if_true, Option.some.injEq, Change.add.injEq, true_and] at hlast
      rw [filter_append, filter_cons_of_pos (by simp [hentry]), filter_nil,
        List.getLast?_concat, Option.some.injEq] at he
      rw [← hlast, he]
    · rw [if_neg hentry] at hlast
      refine h.waiting hok name added hlast e ?_
      simpa [filter_append, hentry] using he

end

/-- The write at the front of the queue is performed, in an open segment. -/
theorem added {entry : IndexEntry} (h : Tracks ok l (entry :: queued) d) (hactive : d.segmentActive = true)
    (hflush : d.addAndFlush entry adds removes = some d') :
    Tracks ok l queued d' ∧ d'.segmentActive = true := by
  have hadded := added_of_addAndFlush h.saved (h.active ▸ hactive) hflush
  refine ⟨⟨?_, hadded.pendingAdds, fun name hname => ?_, ?_, ?_, ?_⟩, hadded.segmentActive.trans hactive⟩
  · rw [hadded.segmentActive, hactive, hadded.inSegment]
  · -- what is removed with the write and was not removed by the task had no entries any more
    rw [hadded.entries, ← h.kept name hname]
    split
    · next hremoved =>
      have hpending := Finset.mem_of_mem_erase hremoved
      exact (((h.removes name hpending).resolve_left hname)).symm
    · rfl
  · rw [hadded.pendingRemoves]
    exact fun name hname => absurd hname (Finset.notMem_empty name)
  · intro hok name added hlast hfree
    refine ⟨hadded.inSegment, ?_, by rw [hadded.pendingRemoves]; exact Finset.notMem_empty name⟩
    rw [hadded.pending]
    by_cases hname : name = entry.objectName
    · -- no other write of the object waits, so this is the last one
      have hlastQueued : ((entry :: queued).filter (·.objectName = name)).getLast? = some entry := by
        have hnone : queued.filter (·.objectName = name) = [] :=
          filter_eq_nil_iff.mpr fun e he => by simpa using hfree e he
        rw [filter_cons_of_pos (by simp [hname]), hnone]
        rfl
      rw [if_pos hname, h.waiting hok name added hlast entry hlastQueued]
    · have hbefore := h.written hok name added hlast fun e he => by
        rcases mem_cons.mp he with rfl | he
        · exact fun heq => hname heq.symm
        · exact hfree e he
      rw [if_neg hname, if_neg hbefore.2.2, hbefore.2.1]
  · intro hok name added hlast e he
    refine h.waiting hok name added hlast e ?_
    rw [filter_cons]
    split
    · rw [List.getLast?_cons, he]
      rfl
    · exact he

theorem removeEntry (h : Tracks ok l queued d) (name : String) :
    Tracks ok (l.note (.remove name)) queued (d.removeEntry name) := by
  have hreplay := d.replay_removeEntry name
  have hindex : (d.removeEntry name).index.pendingAdds = ∅ ∧
      ∀ other ∈ (d.removeEntry name).index.pendingRemoves,
        other = name ∨ other ∈ d.index.pendingRemoves := by
    show (d.index.removeEntry name).2.pendingAdds = ∅ ∧
      ∀ other ∈ (d.index.removeEntry name).2.pendingRemoves, other = name ∨ other ∈ d.index.pendingRemoves
    unfold LocalIndex.removeEntry
    split
    · exact ⟨h.saved, fun _ => .inr⟩
    · refine ⟨?_, fun other => Finset.mem_insert.mp⟩
      rw [h.saved]
      rfl
  have hlast : ∀ {other added}, lastChange (l.note (.remove name)).changes other =
      some (.add other added) → name ≠ other ∧ lastChange l.changes other = some (.add other added) := by
    intro other added hlast
    rw [note, lastChange_concat] at hlast
    split at hlast
    · cases hlast
    · next hname => exact ⟨hname, hlast⟩
  refine ⟨?_, hindex.1, fun other hother => ?_, fun other hother => ?_, ?_, ?_⟩
  · rw [hreplay]
    exact h.active
  · rw [hreplay]
    exact h.kept other fun hmem => hother (mem_append_left _ hmem)
  · rw [hreplay]
    rcases hindex.2 other hother with rfl | hother
    · exact .inl (by simp [note])
    · exact (h.removes other hother).imp_left (mem_append_left _)
  · intro hok other added hadd hfree
    obtain ⟨hne, hbefore⟩ := hlast hadd
    obtain ⟨hinside, hpending, hnotMem⟩ := h.written hok other added hbefore hfree
    rw [hreplay]
    refine ⟨hinside, hpending, fun hmem => ?_⟩
    rcases hindex.2 other hmem with heq | hmem
    · exact hne heq.symm
    · exact hnotMem hmem
  · intro hok other added hadd
    exact h.waiting hok other added (hlast hadd).2

end Tracks

/-! ### The end of a task, on one database -/

/-- A task completes: what it removed is gone from the file, and if its segment is closed, every object in
it was written by the task, or has in it the entries it has anyway. -/
structure SafeCommit (involved : Prop) (changes : List (Change String IndexEntry)) (d : Database) :
    Prop where
  removed : ∀ name, lastChange changes name = some (.remove name) → d.replay.entries.lookup name = none
  own : involved → ∀ name entries, d.replay.pending.lookup name = some entries →
    (∃ added, lastChange changes name = some (.add name added)) ∨
      lastChange changes name = none ∧ d.replay.entries.lookup name = some entries

/-- A task fails: what it removed is gone from the file. -/
def SafeAbort (changes : List (Change String IndexEntry)) (d : Database) : Prop :=
  ∀ name, .remove name ∈ changes → d.replay.entries.lookup name = none

/-- The entries in the file are those of the ledger. -/
def Agrees (l : Ledger) (d : Database) : Prop :=
  ∀ name, d.replay.entries.lookup name = l.committed.lookup name

/-- An object after the removals of a failed task. -/
theorem lookup_close_false (l : Ledger) (name : String) : (l.close false).committed.lookup name =
      if .remove name ∈ l.changes then none else l.committed.lookup name := by
  show ((l.changes.filter isRemoval).foldl applyChange l.committed).lookup name = _
  rw [lookup_foldl_applyChange]
  cases hlast : lastChange (l.changes.filter isRemoval) name with
  | none =>
    rw [if_neg]
    intro hmem
    exact notMem_of_lastChange_eq_none hlast (.remove name) rfl (mem_filter.mpr ⟨hmem, rfl⟩)
  | some change =>
    obtain ⟨hmem, hname⟩ := mem_of_lastChange hlast
    obtain ⟨hmem, hremoval⟩ := mem_filter.mp hmem
    cases change with
    | add other added => cases hremoval
    | remove other =>
      obtain rfl : other = name := hname
      rw [if_pos hmem]

namespace Tracks

variable {ok ok' : Prop} {l : Ledger} {queued : List IndexEntry} {d d' : Database}

/-- An empty ledger behind the last end of a task, and a file that agrees with it. -/
theorem of_agrees {table : Table String (List IndexEntry)} (hactive : d.segmentActive = d.replay.inSegment)
    (hsaved : d.index.pendingAdds = ∅) (hagrees : Agrees ⟨table, []⟩ d)
    (hremoves : ∀ name ∈ d.index.pendingRemoves, d.replay.entries.lookup name = none) :
    Tracks ok ⟨table, []⟩ queued d where
  active := hactive
  saved := hsaved
  kept name _ := hagrees name
  removes name hname := Or.inr (hremoves name hname)
  written _ name added hlast := absurd hlast (by simp [lastChange])
  waiting _ name added hlast := absurd hlast (by simp [lastChange])

/-- A failed task: its segment is taken back, or never closed. -/
theorem abort_iff (h : Tracks ok l queued d) (hentries : d'.replay.entries = d.replay.entries) :
    Agrees (l.close false) d' ↔ SafeAbort l.changes d := by
  refine forall_congr' fun name => ?_
  rw [hentries, lookup_close_false]
  by_cases hremoved : .remove name ∈ l.changes
  · rw [if_pos hremoved]
    exact ⟨fun hnone _ => hnone, fun hnone => hnone hremoved⟩
  · rw [if_neg hremoved]
    exact iff_of_true (h.kept name hremoved) fun hmem => absurd hmem hremoved

theorem abort (h : Tracks ok l queued d) (hindex : d'.index.pendingAdds = d.index.pendingAdds ∧
      d'.index.pendingRemoves = d.index.pendingRemoves)
    (hactive : d'.segmentActive = d'.replay.inSegment)
    (hentries : d'.replay.entries = d.replay.entries) (hagrees : Agrees (l.close false) d')
    (queued' : List IndexEntry) : Tracks ok' (l.close false) queued' d' := by
  refine of_agrees hactive (hindex.1.trans h.saved) hagrees fun name hname => ?_
  rw [hindex.2] at hname
  rcases h.removes name hname with hremoved | hnone
  · rw [hentries]
    exact (h.abort_iff hentries).mp hagrees name hremoved
  · rw [hentries, hnone]

variable {involved : Prop} [Decidable involved]

theorem lookup_commit (name : String) : (if involved then d.markWriteEnd else d).replay.entries.lookup name =
      if involved then (d.replay.pending.lookup name).or (d.replay.entries.lookup name)
      else d.replay.entries.lookup name := by
  split
  · rw [replay_markWriteEnd, Table.lookup_union]
  · rfl

variable (h : Tracks ok l queued d) (hok : ok) (hdrained : involved → queued = [])
  (hinvolved : ∀ name added, .add name added ∈ l.changes → involved)
  (hd' : (if involved then d.markWriteEnd else d) = d')

include h hok hdrained hinvolved hd'

theorem commit_iff : Agrees (l.close true) d' ↔ SafeCommit involved l.changes d := by
  have hpoint : ∀ name, d'.replay.entries.lookup name = (l.close true).committed.lookup name ↔
      (lastChange l.changes name = some (.remove name) → d.replay.entries.lookup name = none) ∧
      (involved → ∀ entries, d.replay.pending.lookup name = some entries →
        (∃ added, lastChange l.changes name = some (.add name added)) ∨
          lastChange l.changes name = none ∧ d.replay.entries.lookup name = some entries) := by
    intro name
    rw [← hd', lookup_commit]
    show _ = (l.changes.foldl applyChange l.committed).lookup name ↔ _
    rw [lookup_foldl_applyChange]
    cases hlast : lastChange l.changes name with
    | none =>
      -- the task has not touched the object
      have hkept := h.kept name (notMem_of_lastChange_eq_none hlast (.remove name) rfl)
      rw [← hkept]
      by_cases hinv : involved
      · cases d.replay.pending.lookup name <;> simp [hinv, eq_comm]
      · simp [hinv]
    | some change =>
      obtain ⟨hmem, hname⟩ := mem_of_lastChange hlast
      cases change with
      | add other added =>
        obtain rfl : other = name := hname
        have hinv := hinvolved _ _ hmem
        have hwritten := h.written hok other added hlast (by simp [hdrained hinv])
        simp [hinv, hwritten.2.1]
      | remove other =>
        obtain rfl : other = name := hname
        by_cases hinv : involved
        · cases d.replay.pending.lookup other <;> simp [hinv]
        · simp [hinv]
  constructor
  · intro hagrees
    exact ⟨fun name => ((hpoint name).mp (hagrees name)).1,
      fun hinv name => ((hpoint name).mp (hagrees name)).2 hinv⟩
  · intro hsafe name
    exact (hpoint name).mpr ⟨hsafe.removed name, fun hinv => hsafe.own hinv name⟩

theorem commit (hagrees : Agrees (l.close true) d') (queued' : List IndexEntry) :
    Tracks ok' (l.close true) queued' d' := by
  have hindex : d'.index.pendingAdds = d.index.pendingAdds ∧
      d'.index.pendingRemoves = d.index.pendingRemoves := by
    rw [← hd']
    split <;> exact ⟨rfl, rfl⟩
  refine of_agrees ?_ (hindex.1.trans h.saved) hagrees fun name hname => ?_
  · rw [← hd']
    split
    · rw [replay_markWriteEnd]
      rfl
    · exact h.active
  · rw [hindex.2] at hname
    rw [hagrees name]
    show (l.changes.foldl applyChange l.committed).lookup name = none
    rw [lookup_foldl_applyChange]
    cases hlast : lastChange l.changes name with
    | none =>
      have hnotMem := notMem_of_lastChange_eq_none hlast (.remove name) rfl
      rw [← h.kept name hnotMem]
      exact (h.removes name hname).resolve_left hnotMem
    | some change =>
      obtain ⟨hmem, hchange⟩ := mem_of_lastChange hlast
      cases change with
      | add other added =>
        obtain rfl : other = name := hchange
        have hwritten := h.written hok other added hlast (by simp [hdrained (hinvolved _ _ hmem)])
        exact absurd hname hwritten.2.2
      | remove other => rfl

end Tracks

/-! ### Runs -/

/-- The entries of the writes to a database that wait in the queue. -/
def WorkerAgent.waiting (w : WorkerAgent) (dbPath : String) : List IndexEntry :=
  (w.writeBackQueue.filter (·.object.dbPath = dbPath)).map entry

/-- What holds between the ends of tasks, as long as all of them have left the right entries. -/
structure Consistent (s : TaskRun) : Prop where
  tracks : ∀ dbPath, Tracks (s.worker.lastErrorType = .unknown) (ledger s.history dbPath)
    (s.worker.waiting dbPath) (s.worker.databases dbPath)
  recorded : ∀ dbPath name added, .add name added ∈ (ledger s.history dbPath).changes →
    dbPath ∈ involvedDbs s.worker.currentWrites
  streaming : ∀ dbPath object selfSet, s.worker.streams.lookup dbPath = some (object, selfSet) →
    object.dbPath = dbPath ∧ (s.worker.databases dbPath).segmentActive = true
  idle : s.worker.transactionMode = false → s.worker.currentWrites = []

theorem consistent_start : Consistent {} where
  tracks _ := Tracks.of_agrees rfl rfl (fun _ => rfl) fun _ h => absurd h (Finset.notMem_empty _)
  recorded _ _ _ h := absurd h not_mem_nil
  streaming := nofun
  idle _ := rfl

theorem mem_involvedDbs_concat {writes : List WriteRecord} {object : ObjectName} {size : ℤ}
    {dbPath : String} :
    dbPath ∈ involvedDbs (writes ++ [⟨object.full, size⟩]) ↔
      dbPath ∈ involvedDbs writes ∨ dbPath = object.dbPath := by
  simp [involvedDbs, object.dbPath_ne_empty]

namespace Consistent

variable {s : TaskRun} {w' : WorkerAgent}

/-- An operation that the databases and the queue do not notice. -/
theorem unnoticed (h : Consistent s) (hok : w'.lastErrorType = .unknown → s.worker.lastErrorType = .unknown)
    (hdatabases : w'.databases = s.worker.databases)
    (hqueue : w'.writeBackQueue = s.worker.writeBackQueue)
    (hwrites : w'.currentWrites = s.worker.currentWrites) (hstreams : w'.streams = s.worker.streams)
    (hmode : w'.transactionMode = s.worker.transactionMode) : Consistent ⟨w', s.history⟩ where
  tracks dbPath := by
    rw [waiting, hqueue, hdatabases]
    exact (h.tracks dbPath).weaken hok
  recorded dbPath name added hmem := by
    rw [hwrites]
    exact h.recorded dbPath name added hmem
  streaming dbPath object selfSet hlookup := by
    rw [hdatabases]
    exact h.streaming dbPath object selfSet (hstreams ▸ hlookup)
  idle hmode' := by
    rw [hwrites]
    exact h.idle (hmode.symm.trans hmode')

theorem on_database (h : Consistent s) {events : List Event} (path : String) (database : Database)
    (htracks : Tracks (w'.lastErrorType = .unknown) (ledger (s.history ++ events) path)
      (w'.waiting path) database)
    (hok : w'.lastErrorType = .unknown → s.worker.lastErrorType = .unknown)
    (hdatabases : w'.databases = update s.worker.databases path database)
    (hother : ∀ dbPath, dbPath ≠ path → ledger (s.history ++ events) dbPath = ledger s.history dbPath ∧
      w'.waiting dbPath = s.worker.waiting dbPath)
    (hsegment : (s.worker.databases path).segmentActive = true → database.segmentActive = true)
    (hrecorded : ∀ dbPath, dbPath ∈ involvedDbs s.worker.currentWrites →
      dbPath ∈ involvedDbs w'.currentWrites)
    (hwritten : ∀ name added, .add name added ∈ (ledger (s.history ++ events) path).changes →
      path ∈ involvedDbs w'.currentWrites)
    (hstreams : ∀ dbPath object selfSet, w'.streams.lookup dbPath = some (object, selfSet) →
      s.worker.streams.lookup dbPath = some (object, selfSet) ∨
        object.dbPath = dbPath ∧ dbPath = path ∧ database.segmentActive = true)
    (hidle : w'.transactionMode = true ∨
      w'.transactionMode = s.worker.transactionMode ∧ w'.currentWrites = s.worker.currentWrites) :
    Consistent ⟨w', s.history ++ events⟩ where
  tracks dbPath := by
    by_cases hpath : dbPath = path
    · subst hpath
      rw [hdatabases, update_self]
      exact htracks
    · obtain ⟨hledger, hwaiting⟩ := hother dbPath hpath
      rw [hdatabases, update_of_ne hpath]
      rw [hledger, hwaiting]
      exact (h.tracks dbPath).weaken hok
  recorded dbPath name added hmem := by
    by_cases hpath : dbPath = path
    · subst hpath
      exact hwritten name added hmem
    · refine hrecorded dbPath (h.recorded dbPath name added ?_)
      rwa [← (hother dbPath hpath).1]
  streaming dbPath object selfSet hlookup := by
    rw [hdatabases]
    rcases hstreams dbPath object selfSet hlookup with hbefore | ⟨hobject, rfl, hactive⟩
    · obtain ⟨hobject, hactive⟩ := h.streaming dbPath object selfSet hbefore
      refine ⟨hobject, ?_⟩
      by_cases hpath : dbPath = path
      · subst hpath
        rw [update_self]
        exact hsegment hactive
      · rw [update_of_ne hpath]
        exact hactive
    · rw [update_self]
      exact ⟨hobject, hactive⟩
  idle hmode := by
    rcases hidle with hbusy | ⟨hsame, hwrites⟩
    · cases hbusy.symm.trans hmode
    · rw [hwrites]
      exact h.idle (hsame.symm.trans hmode)

variable {dbPath : String}

/-- Events of one database leave the other ledgers alone. -/
theorem ledger_wrote_ne {history : List Event} (entry : IndexEntry)
    (h : dbPath ≠ path) : ledger (history ++ [.wrote path entry]) dbPath = ledger history dbPath := by
  rw [ledger_concat, record, if_neg (Ne.symm h)]

theorem ledger_wrote_self (history : List Event) (path : String) (entry : IndexEntry) :
    ledger (history ++ [.wrote path entry]) path =
      (ledger history path).note (.add entry.objectName [entry]) := by
  rw [ledger_concat, record, if_pos rfl]

section

variable (h : Consistent s)
  {object : ObjectName} {timestamp : String} {reply : RegisterReply} {adds : List (String × List IndexEntry)}
  {removes : List String}

include h

theorem beginTask (hmode : s.worker.transactionMode = false) (hash : String) :
    Consistent ⟨s.worker.beginTask hash, s.history ++ []⟩ := by
  have hnone : ∀ dbPath name added, .add name added ∉ (ledger s.history dbPath).changes := by
    intro dbPath name added hmem
    have hrecorded := h.recorded dbPath name added hmem
    rw [h.idle hmode] at hrecorded
    exact absurd hrecorded not_mem_nil
  rw [append_nil]
  exact {
    tracks := fun dbPath => (h.tracks dbPath).of_no_adds (hnone dbPath)
    recorded := fun dbPath name added hmem => absurd hmem (hnone dbPath name added)
    streaming := h.streaming
    idle := fun _ => rfl }

theorem writeObject (hmode : s.worker.transactionMode = true) {frozen : Bool} {placement : Placement}
    {err : WriteErrorType}
    (hwrite : s.worker.writeObject frozen object placement timestamp reply = (err, w')) :
    Consistent ⟨w', s.history ++ if err = .ok then
      [.wrote object.dbPath (placement.entry object.shortName (s.worker.writeHash timestamp))] else []⟩ := by
  obtain ⟨idx, lastError, hok, ⟨herr, rfl⟩ | ⟨rfl, rfl⟩⟩ := writeObject_spec hwrite
  · rw [if_neg herr, append_nil]
    exact h.unnoticed hok rfl rfl rfl rfl rfl
  rw [if_pos rfl]
  generalize hentry : placement.entry object.shortName (s.worker.writeHash timestamp) = entry
  refine h.on_database object.dbPath (s.worker.databases object.dbPath) ?_ hok
    (update_eq_self ..).symm ?_ id ?_ ?_ (fun _ _ _ => .inl) (.inl hmode)
  · rw [ledger_wrote_self]
    have hwaiting := ((h.tracks object.dbPath).enqueue entry).weaken hok
    simpa [waiting, filter_append] using hwaiting
  · intro dbPath hne
    refine ⟨ledger_wrote_ne _ hne, ?_⟩
    simp [waiting, filter_append, Ne.symm hne]
  · exact fun dbPath hmem => mem_involvedDbs_concat.mpr (.inl hmem)
  · exact fun _ _ _ => mem_involvedDbs_concat.mpr (.inr rfl)

theorem openWriteStream (hmode : s.worker.transactionMode = true) {frozen opened : Bool}
    (hopen : s.worker.openWriteStream frozen object timestamp reply = some (opened, w')) :
    Consistent ⟨w', s.history ++ []⟩ := by
  obtain ⟨lastError, hok, rfl | rfl⟩ := openWriteStream_spec hopen
  · rw [append_nil]
    exact h.unnoticed hok rfl rfl rfl rfl rfl
  obtain ⟨htracks, hactive⟩ := (h.tracks object.dbPath).openSegment
  refine h.on_database object.dbPath _ ?_ hok rfl ?_ (fun _ => hactive) (fun _ => id) ?_ ?_ (.inl hmode)
  · rw [append_nil]
    exact htracks.weaken hok
  · exact fun dbPath _ => ⟨by rw [append_nil], rfl⟩
  · rw [append_nil]
    exact h.recorded object.dbPath
  · intro dbPath other otherSet hlookup
    rw [Table.lookup_insert_eq] at hlookup
    split at hlookup
    · next hpath =>
      cases hlookup
      exact .inr ⟨hpath.symm, hpath, hactive⟩
    · exact .inl hlookup

theorem commitStream {hashSelfSet : Bool}
    (hstream : s.worker.streams.lookup dbPath = some (object, hashSelfSet))
    (hmode : s.worker.transactionMode = true) {placement : Placement}
    {err : WriteErrorType}
    (hcommit : s.worker.commitStream object hashSelfSet placement adds removes timestamp reply =
      some (err, w')) :
    Consistent ⟨w', s.history ++ if err = .ok then
      [.wrote object.dbPath (placement.entry object.shortName "")] else []⟩ := by
  obtain ⟨rfl, hactive⟩ := h.streaming dbPath object hashSelfSet hstream
  obtain ⟨hqueue, database, hflush, idx, lastError, writes, rfl, hend⟩ := commitStream_spec hcommit
  have hempty : ∀ path, s.worker.waiting path = [] := by
    intro path
    rw [waiting, hqueue]
    rfl
  have htracks := h.tracks object.dbPath
  rcases hend with ⟨herr, hne, rfl⟩ | ⟨rfl, hok, size, rfl⟩
  · -- the write is refused; its entry stays in the segment
    have hfailed : Tracks (lastError = .unknown) (ledger s.history object.dbPath)
        [placement.entry object.shortName ""] (s.worker.databases object.dbPath) :=
      htracks.of_not_ok hne _
    obtain ⟨hadded, hactive'⟩ := hfailed.added hactive hflush
    rw [if_neg herr]
    refine h.on_database object.dbPath database ?_ (fun hok => absurd hok hne) rfl ?_
      (fun _ => hactive') (fun _ => id) ?_
        (fun _ _ _ hlookup => .inl (Table.lookup_erase_eq_some.mp hlookup).2)
      (.inl hmode)
    · rw [append_nil]
      exact hadded.of_not_ok hne _
    · exact fun path _ => ⟨by rw [append_nil], rfl⟩
    · rw [append_nil]
      exact h.recorded object.dbPath
  · have hqueued := htracks.enqueue (placement.entry object.shortName "")
    rw [hempty, nil_append] at hqueued
    obtain ⟨hadded, hactive'⟩ := hqueued.added hactive hflush
    rw [if_pos rfl]
    refine h.on_database object.dbPath database ?_ hok rfl ?_ (fun _ => hactive') ?_ ?_
      (fun _ _ _ hlookup => .inl (Table.lookup_erase_eq_some.mp hlookup).2) (.inl hmode)
    · rw [ledger_wrote_self]
      show Tracks _ _ (s.worker.waiting object.dbPath) _
      rw [hempty object.dbPath]
      exact hadded.weaken hok
    · exact fun path hne => ⟨ledger_wrote_ne _ hne, rfl⟩
    · exact fun path hmem => mem_involvedDbs_concat.mpr (.inl hmem)
    · exact fun _ _ _ => mem_involvedDbs_concat.mpr (.inr rfl)

/-- A removal, by the task or by the master. -/
theorem onRemoveCommand (object : ObjectName) : Consistent ⟨s.worker.onRemoveCommand object,
      s.history ++ [.removed object.dbPath object.shortName]⟩ := by
  refine h.on_database object.dbPath _ ?_ id rfl ?_ id (fun _ => id) ?_ (fun _ _ _ => .inl) (.inr ⟨rfl, rfl⟩)
  · rw [ledger_concat, record, if_pos rfl]
    exact (h.tracks object.dbPath).removeEntry object.shortName
  · exact fun dbPath hne => ⟨by rw [ledger_concat, record, if_neg hne.symm], rfl⟩
  · intro name added hmem
    rw [ledger_concat, record, if_pos rfl, note, mem_append, mem_singleton] at hmem
    exact h.recorded object.dbPath name added (hmem.resolve_right (by simp))

theorem writeBack (hback : s.worker.writeBack adds removes = some w') : Consistent ⟨w', s.history ++ []⟩ := by
  obtain ⟨request, rest, database, idx, hqueue, hflush, rfl⟩ := writeBack_spec hback
  have hwaiting : ∀ dbPath, s.worker.waiting dbPath =
      if request.object.dbPath = dbPath then
        request.entry :: (rest.filter (·.object.dbPath = dbPath)).map entry
      else (rest.filter (·.object.dbPath = dbPath)).map entry := by
    intro dbPath
    rw [waiting, hqueue, filter_cons]
    by_cases hpath : request.object.dbPath = dbPath <;> simp [hpath]
  obtain ⟨hopened, hactive⟩ := (h.tracks request.object.dbPath).openSegment
  rw [hwaiting, if_pos rfl] at hopened
  obtain ⟨hadded, hactive'⟩ := hopened.added hactive hflush
  refine h.on_database request.object.dbPath database ?_ id rfl ?_ (fun _ => hactive') (fun _ => id) ?_
    (fun _ _ _ => .inl) (.inr ⟨rfl, rfl⟩)
  · rw [append_nil]
    exact hadded
  · intro dbPath hne
    rw [append_nil, hwaiting, if_neg (Ne.symm hne)]
    exact ⟨rfl, rfl⟩
  · rw [append_nil]
    exact h.recorded request.object.dbPath

/-- Every operation but the end of a task. -/
theorem step (hop : ∀ result, op ≠ .finishTask result) {s' : TaskRun}
    (hstep : s.step op = some s') : Consistent s' := by
  obtain ⟨⟨events, w'⟩, hperform, rfl⟩ := map_eq_some_iff.mp hstep
  cases op with
  | beginTask hash =>
    obtain ⟨hmode, hperform⟩ := ite_none_left_eq_some.mp hperform
    cases hperform
    exact h.beginTask (Bool.eq_false_of_not_eq_true hmode) hash
  | writeObject frozen object placement timestamp reply =>
    obtain ⟨hmode, hperform⟩ := ite_none_right_eq_some.mp hperform
    cases hperform
    exact h.writeObject hmode rfl
  | openWriteStream frozen object timestamp reply =>
    obtain ⟨hmode, hperform⟩ := ite_none_right_eq_some.mp hperform
    obtain ⟨⟨opened, w''⟩, hopen, heq⟩ := map_eq_some_iff.mp hperform
    cases heq
    exact h.openWriteStream hmode hopen
  | commitStream dbPath placement adds removes timestamp reply =>
    obtain ⟨hmode, hperform⟩ := ite_none_right_eq_some.mp hperform
    split at hperform
    · next object hashSelfSet hstream =>
      obtain ⟨⟨err, w''⟩, hcommit, heq⟩ := map_eq_some_iff.mp hperform
      cases heq
      exact h.commitStream hstream hmode hcommit
    · cases hperform
  | removeObject frozen object =>
    obtain ⟨-, hperform⟩ := ite_none_right_eq_some.mp hperform
    cases hperform
    cases frozen with
    | true =>
      show Consistent ⟨s.worker, s.history ++ []⟩
      rw [append_nil]
      exact h
    | false => exact h.onRemoveCommand object
  | onRemoveCommand object =>
    cases hperform
    exact h.onRemoveCommand object
  | writeBack adds removes =>
    obtain ⟨w'', hback, heq⟩ := map_eq_some_iff.mp hperform
    cases heq
    exact h.writeBack hback
  | finishTask result => exact absurd rfl (hop result)

end

end Consistent

/-- The entries in all index files are those of the ledgers. -/
def AllAgree (s : TaskRun) : Prop :=
  ∀ dbPath, Agrees (ledger s.history dbPath) (s.worker.databases dbPath)

/-- The end of a task is safe on every database. -/
structure SafeFinish (s : TaskRun) (result : TaskExecResult) : Prop where
  commit : s.worker.Completes result → ∀ dbPath, SafeCommit (dbPath ∈ involvedDbs s.worker.currentWrites)
      (ledger s.history dbPath).changes (s.worker.databases dbPath)
  abort : ¬s.worker.Completes result → ∀ dbPath,
    SafeAbort (ledger s.history dbPath).changes (s.worker.databases dbPath)

namespace Consistent

variable {s s' : TaskRun}

variable {report : TaskReport} {w' : WorkerAgent} {result : TaskExecResult}

/-- The end of a task.  Between tasks the ledgers have nothing open. -/
theorem of_finished {complete : Bool} (safe : String → Prop) (hreport : report.isComplete = complete)
    (hend : ∀ dbPath, (Agrees ((ledger s.history dbPath).close complete) (w'.databases dbPath) ↔
        safe dbPath) ∧
      (Agrees ((ledger s.history dbPath).close complete) (w'.databases dbPath) →
        Tracks (w'.lastErrorType = .unknown) ((ledger s.history dbPath).close complete)
          (w'.waiting dbPath) (w'.databases dbPath)))
    (hwrites : w'.currentWrites = []) (hstreams : w'.streams = ∅) :
    (AllAgree ⟨w', s.history ++ [.finished report]⟩ ↔ ∀ dbPath, safe dbPath) ∧
      (AllAgree ⟨w', s.history ++ [.finished report]⟩ →
        Consistent ⟨w', s.history ++ [.finished report]⟩) := by
  have hledger : ∀ dbPath, ledger (s.history ++ [.finished report]) dbPath =
      (ledger s.history dbPath).close complete := by
    intro dbPath
    rw [ledger_concat, record, hreport]
  simp only [AllAgree, hledger]
  refine ⟨forall_congr' fun dbPath => (hend dbPath).1,
    fun hagree => ⟨fun dbPath => ?_, ?_, ?_, fun _ => hwrites⟩⟩
  · rw [hledger]
    exact (hend dbPath).2 (hagree dbPath)
  · intro dbPath name added hmem
    rw [hledger] at hmem
    exact absurd hmem not_mem_nil
  · intro dbPath object selfSet hlookup
    rw [hstreams] at hlookup
    cases hlookup

theorem finishTask (h : Consistent s) (hstep : s.step (.finishTask result) = some s') :
    (AllAgree s' ↔ SafeFinish s result) ∧ (AllAgree s' → Consistent s') := by
  obtain ⟨⟨events, w'⟩, hperform, rfl⟩ := map_eq_some_iff.mp hstep
  obtain ⟨-, hperform⟩ := ite_none_right_eq_some.mp hperform
  obtain ⟨⟨report, w''⟩, hfinish, heq⟩ := map_eq_some_iff.mp hperform
  cases heq
  by_cases hcompletes : s.worker.Completes result
  · obtain ⟨hreport, hdrained, rfl⟩ := finishTask_of_completes hcompletes hfinish
    have hwaiting : ∀ dbPath ∈ involvedDbs s.worker.currentWrites, s.worker.waiting dbPath = [] := by
      intro dbPath hmem
      rw [waiting, hdrained.resolve_left (ne_nil_of_mem hmem)]
      rfl
    refine And.imp_left (fun hiff => hiff.trans ?_) (of_finished _ hreport (fun dbPath =>
      ⟨(h.tracks dbPath).commit_iff hcompletes.1 (hwaiting dbPath) (h.recorded dbPath) rfl, fun hagrees =>
        (h.tracks dbPath).commit hcompletes.1 (hwaiting dbPath) (h.recorded dbPath) rfl hagrees _⟩) rfl rfl)
    exact ⟨fun hsafe => ⟨fun _ => hsafe, fun hfails => absurd hcompletes hfails⟩,
      fun hsafe => hsafe.commit hcompletes⟩
  obtain ⟨hreport, queue, idx, rfl⟩ := finishTask_of_not_completes hcompletes hfinish
  refine And.imp_left (fun hiff => hiff.trans ?_) (of_finished (fun dbPath =>
    SafeAbort (ledger s.history dbPath).changes (s.worker.databases dbPath)) hreport (fun dbPath => ?_)
      rfl rfl)
  · -- a segment is taken back or left open; the entries that count are not touched
    have htracks := h.tracks dbPath
    dsimp only
    split
    · obtain ⟨hentries, hinside, hclosed⟩ := replay_abortSegment htracks.active
      refine ⟨htracks.abort_iff hentries, fun hagrees =>
        htracks.abort ?_ (hclosed.trans hinside.symm) hentries hagrees _⟩
      unfold abortSegment
      split <;> exact ⟨rfl, rfl⟩
    · exact ⟨htracks.abort_iff rfl, fun hagrees =>
        htracks.abort ⟨rfl, rfl⟩ htracks.active rfl hagrees _⟩
  · exact ⟨fun hsafe => ⟨(absurd · hcompletes), fun _ => hsafe⟩, fun hsafe => hsafe.abort hcompletes⟩

end Consistent

/-! ### The index files only grow -/

/-- The file of the second database continues that of the first. -/
def Grows (d d' : Database) : Prop := d.index.log <+: d'.index.log

namespace Grows

theorem refl (d : Database) : Grows d d := prefix_rfl

theorem openSegment (d : Database) : Grows d d.openSegment := by
  unfold Database.openSegment
  split
  · exact refl d
  · exact prefix_append ..

theorem addAndFlush {d d' : Database} {entry : IndexEntry} (h : d.addAndFlush entry adds removes = some d') :
    Grows d d' := by
  obtain ⟨index, hsave, rfl⟩ := map_eq_some_iff.mp h
  obtain ⟨-, -, rfl⟩ := LocalIndex.of_save rfl hsave
  exact prefix_append ..

theorem removeEntry (d : Database) (name : String) : Grows d (d.removeEntry name) := by
  rw [Grows, Database.removeEntry, log_removeEntry]

theorem abortSegment (d : Database) : Grows d d.abortSegment := by
  unfold Database.abortSegment
  split
  · exact prefix_append ..
  · exact refl d

theorem update {databases : String → Database} {database : Database}
    (h : Grows (databases path) database) (dbPath : String) :
    Grows (databases dbPath) (update databases path database dbPath) := by
  by_cases hpath : dbPath = path
  · subst hpath
    rwa [update_self]
  · rw [update_of_ne hpath]
    exact refl _

theorem finishTask {w w' : WorkerAgent} {result : TaskExecResult} {report : TaskReport}
    (h : w.finishTask result = some (report, w')) (dbPath : String) :
    Grows (w.databases dbPath) (w'.databases dbPath) := by
  by_cases hcompletes : w.Completes result
  · obtain ⟨-, -, rfl⟩ := finishTask_of_completes hcompletes h
    show Grows _ (if _ then _ else _)
    split
    · exact prefix_append ..
    · exact refl _
  · obtain ⟨-, queue, idx, rfl⟩ := finishTask_of_not_completes hcompletes h
    show Grows _ (if _ then _ else _)
    split
    · exact abortSegment _
    · exact refl _

variable {s s' : TaskRun}

theorem step (h : s.step op = some s') (dbPath : String) :
    Grows (s.worker.databases dbPath) (s'.worker.databases dbPath) := by
  obtain ⟨⟨events, w'⟩, hperform, rfl⟩ := map_eq_some_iff.mp h
  cases op with
  | beginTask hash =>
    obtain ⟨-, hperform⟩ := ite_none_left_eq_some.mp hperform
    cases hperform
    exact refl _
  | writeObject frozen object placement timestamp reply =>
    simp only [perform] at hperform
    obtain ⟨-, hperform⟩ := ite_none_right_eq_some.mp hperform
    cases hperform
    rcases hwrite : s.worker.writeObject frozen object placement timestamp reply with ⟨err, w'⟩
    obtain ⟨idx, lastError, -, ⟨-, rfl⟩ | ⟨-, rfl⟩⟩ := writeObject_spec hwrite
    all_goals exact refl _
  | openWriteStream frozen object timestamp reply =>
    obtain ⟨-, hperform⟩ := ite_none_right_eq_some.mp hperform
    obtain ⟨⟨opened, w''⟩, hopen, heq⟩ := map_eq_some_iff.mp hperform
    cases heq
    obtain ⟨lastError, -, rfl | rfl⟩ := openWriteStream_spec hopen
    · exact refl _
    · exact update (openSegment _) dbPath
  | commitStream path placement adds removes timestamp reply =>
    obtain ⟨-, hperform⟩ := ite_none_right_eq_some.mp hperform
    split at hperform
    · obtain ⟨⟨err, w''⟩, hcommit, heq⟩ := map_eq_some_iff.mp hperform
      cases heq
      obtain ⟨-, database, hflush, idx, lastError, writes, rfl, -⟩ := commitStream_spec hcommit
      exact update (addAndFlush hflush) dbPath
    · cases hperform
  | removeObject frozen object =>
    obtain ⟨-, hperform⟩ := ite_none_right_eq_some.mp hperform
    cases hperform
    cases frozen with
    | true => exact refl _
    | false => exact update (removeEntry _ _) dbPath
  | onRemoveCommand object =>
    cases hperform
    exact update (removeEntry _ _) dbPath
  | writeBack adds removes =>
    obtain ⟨w'', hback, heq⟩ := map_eq_some_iff.mp hperform
    cases heq
    obtain ⟨request, rest, database, idx, -, hflush, rfl⟩ := writeBack_spec hback
    exact update ((openSegment _).trans (addAndFlush hflush)) dbPath
  | finishTask result =>
    obtain ⟨-, hperform⟩ := ite_none_right_eq_some.mp hperform
    obtain ⟨⟨report, w''⟩, hfinish, heq⟩ := map_eq_some_iff.mp hperform
    cases heq
    exact finishTask hfinish dbPath

theorem run (h : run TaskRun.step s ops = some s') (dbPath : String) :
    Grows (s.worker.databases dbPath) (s'.worker.databases dbPath) := by
  refine run_invariant (I := fun t => Grows (s.worker.databases dbPath) (t.worker.databases dbPath))
    (fun op _ t t' hgrows hstep => ?_) (refl _) h
  exact List.IsPrefix.trans hgrows (step hstep dbPath)

end Grows

/-! ### Reloading after the end of a task -/

/-- The records of the index files fit their length fields. -/
def Sized (c : IndexCodec String IndexEntry) (s : TaskRun) : Prop :=
  ∀ dbPath, ∀ r ∈ (s.worker.databases dbPath).index.log, (r.body c).length < 256 ^ 7

/-- The entries in the files, by all ends of tasks. -/
theorem allAgree_iff_safeFinish {s : TaskRun} (hrun : run step {} ops = some s) :
    (∀ pre op post, ops = pre ++ op :: post → (∃ result, op = .finishTask result) →
      ∀ t, run step {} (pre ++ [op]) = some t → AllAgree t) ↔
    ∀ pre op post, ops = pre ++ op :: post → (∃ result, op = .finishTask result) →
      ∀ t, run step {} pre = some t → ∀ result, op = .finishTask result → SafeFinish t result := by
  refine run_checked_iff_safe (I := Consistent) (fun t op t' hop hconsistent hstep => ?_)
    (fun t op t' hop hconsistent hstep => ?_) consistent_start hrun
  · exact hconsistent.step (fun result heq => hop ⟨result, heq⟩) hstep
  · obtain ⟨result, rfl⟩ := hop
    obtain ⟨hiff, hkeep⟩ := hconsistent.finishTask hstep
    refine ⟨hiff.trans ⟨fun hsafe other heq => ?_, fun hsafe => hsafe result rfl⟩, hkeep⟩
    cases heq
    exact hsafe

/-- **The index files hold the right entries after every end of a task exactly when every end is safe.**
For all tasks of a worker that starts with empty files, reloaded after any of them. -/
theorem reload_eq_ledger_iff (c : IndexCodec String IndexEntry) {ops : List Op} {s : TaskRun}
    (hrun : run TaskRun.step {} ops = some s) (hsized : Sized c s) :
    (∀ pre result post, ops = pre ++ .finishTask result :: post →
      ∀ t, run TaskRun.step {} (pre ++ [.finishTask result]) = some t →
        ∀ dbPath name, (load c ((t.worker.databases dbPath).index.file c)).lookup name =
          (ledger t.history dbPath).committed.lookup name) ↔
    ∀ pre result post, ops = pre ++ .finishTask result :: post →
      ∀ t, run TaskRun.step {} pre = some t → SafeFinish t result := by
  have hload : ∀ pre post t, ops = pre ++ post → run TaskRun.step {} pre = some t → ∀ dbPath,
      load c ((t.worker.databases dbPath).index.file c) = (t.worker.databases dbPath).replay.entries := by
    intro pre post t hsplit ht dbPath
    have hrest : run TaskRun.step t post = some s := by
      rw [← run_append_of_run ht, ← hsplit]
      exact hrun
    exact load_file c _ fun r hr => hsized dbPath r ((Grows.run hrest dbPath).subset hr)
  have hchecked := allAgree_iff_safeFinish hrun
  constructor
  · intro hgood pre result post hsplit t ht
    refine hchecked.mp (fun pre' op post' hsplit' hop t' ht' dbPath name => ?_) pre
      (.finishTask result) post hsplit ⟨result, rfl⟩ t ht result rfl
    obtain ⟨result', rfl⟩ := hop
    rw [← hload (pre' ++ [.finishTask result']) post' t' (by simp [hsplit']) ht' dbPath]
    exact hgood pre' result' post' hsplit' t' ht' dbPath name
  · intro hsafe pre result post hsplit t ht dbPath name
    rw [hload (pre ++ [.finishTask result]) post t (by simp [hsplit]) ht dbPath]
    refine hchecked.mpr (fun pre' op post' hsplit' _ t' ht' result' hop => ?_) pre
      (.finishTask result) post hsplit ⟨result, rfl⟩ t ht dbPath name
    subst hop
    exact hsafe pre' result' post' hsplit' t' ht'

/-- Some serialization stores a given record in one byte. -/
theorem exists_codec (short : AddRecord String IndexEntry) :
    ∃ c : IndexCodec String IndexEntry, c.encode short = [0] := by
  have : Countable IndexEntry :=
    Function.Injective.countable (f := fun e : IndexEntry => (e.objectName, e.fileName, e.offset,
      e.size, e.isLarge, e.blockCount, e.host, e.writeContextHash)) fun a b h => by
        cases a
        cases b
        simpa using h
  have : Countable (AddRecord String IndexEntry) :=
    Function.Injective.countable (f := fun r : AddRecord String IndexEntry => (r.objectName, r.entries))
      fun a b h => by
        cases a
        cases b
        simpa using h
  obtain ⟨encode, decode, hdecode, -, hshort⟩ := exists_byteCode short
  exact ⟨⟨encode, decode, hdecode, fun _ => none⟩, hshort⟩

def objectX : ObjectName := ⟨"/db", "x", by decide, by decide⟩

def objectY : ObjectName := ⟨"/db", "y", by decide, by decide⟩

def firstPlace : Placement := ⟨1, 0, 8, 1, "host"⟩

/-- A task writes an object and completes. -/
def oneWrite : List Op :=
  [.beginTask "h1", .writeObject false objectX firstPlace "t" .accepted,
    .writeBack [("x", [firstPlace.entry "x" "h1"])] [], .finishTask (.success [])]

theorem log_oneWrite : ∃ s, run step {} oneWrite = some s ∧
    ∀ dbPath, (s.worker.databases dbPath).index.log =
      if dbPath = "/db" then
        [.beginSegment, .data (.add "x" [firstPlace.entry "x" "h1"]), .endSegment]
      else [] := by
  refine ⟨_, rfl, fun dbPath => ?_⟩
  by_cases hpath : dbPath = "/db"
  · subst hpath
    rfl
  have hother : dbPath ∉ involvedDbs [⟨"/db:x", 8⟩] := by
    have hdbs : involvedDbs [⟨"/db:x", 8⟩] = ["/db"] := by decide
    rw [hdbs, mem_singleton]
    exact hpath
  rw [if_neg hpath]
  show (index (if dbPath ∈ involvedDbs [⟨"/db:x", 8⟩] then _
    else update (fun _ => ({} : Database)) "/db" _ dbPath)).log = []
  rw [if_neg hother, update_of_ne hpath]

theorem reload_oneWrite : ∃ c s, run step {} oneWrite = some s ∧ Sized c s ∧
    ((∀ pre result post, oneWrite = pre ++ .finishTask result :: post →
      ∀ t, run step {} (pre ++ [.finishTask result]) = some t →
        ∀ dbPath name, (load c ((t.worker.databases dbPath).index.file c)).lookup name =
          (ledger t.history dbPath).committed.lookup name) ↔
    ∀ pre result post, oneWrite = pre ++ .finishTask result :: post →
      ∀ t, run step {} pre = some t → SafeFinish t result) := by
  obtain ⟨c, hc⟩ := exists_codec ⟨"x", [firstPlace.entry "x" "h1"]⟩
  obtain ⟨s, hrun, hlog⟩ := log_oneWrite
  have hsized : Sized c s := by
    intro dbPath r hr
    rw [hlog] at hr
    split at hr
    · simp only [mem_cons, not_mem_nil, or_false] at hr
      rcases hr with rfl | rfl | rfl
      · exact Nat.pow_pos (by decide)
      · show (c.encode ⟨"x", [firstPlace.entry "x" "h1"]⟩).length < 256 ^ 7
        rw [hc]
        exact Nat.one_lt_pow (by decide) (by decide)
      · exact Nat.pow_pos (by decide)
    · cases hr
  exact ⟨c, s, hrun, hsized, reload_eq_ledger_iff c hrun hsized⟩

/-- The stream of a task is refused when it is committed; the next task writes another object. -/
def refusedStream : List Op :=
  [.beginTask "h1", .openWriteStream false objectX "t" .accepted,
    .commitStream "/db" firstPlace [("x", [firstPlace.entry "x" ""])] [] "t"
      (.refused "Database frozen: /db" .writeToFrozenDb (by decide)),
    .finishTask (.success []),
    .beginTask "h2", .writeObject false objectY ⟨1, 8, 8, 1, "host"⟩ "t" .accepted,
    .writeBack [("y", [Placement.entry ⟨1, 8, 8, 1, "host"⟩ "y" "h2"])] [],
    .finishTask (.success [])]

/-- The second task closes the segment that the first has left open, with the refused object in it. -/
theorem refused_stream_visible : ∃ s, run step {} refusedStream = some s ∧ s.history = [
        .finished (.failed "Write registration rejected: error_type=2" .writeToFrozenDb []),
        .wrote "/db" (Placement.entry ⟨1, 8, 8, 1, "host"⟩ "y" "h2"),
        .finished (.complete [⟨"/db:y", 8⟩])] ∧
      (ledger s.history "/db").committed.lookup "x" = none ∧
      ∀ c, Sized c s → (load c ((s.worker.databases "/db").index.file c)).lookup "x" =
        some [firstPlace.entry "x" ""] := by
  refine ⟨_, rfl, rfl, rfl, fun c hsized => ?_⟩
  rw [load_file c _ (hsized "/db")]
  rfl

end Fly.Agent
