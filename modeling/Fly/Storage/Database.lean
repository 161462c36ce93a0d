import Fly.Storage.DataWriter

/-!
# The database of a worker

A worker writes into a database through a data writer of its own.  Where the bytes go is the business of
`DataWriter`; here is what the writes of tasks do to the index: the records of a task lie in a segment,
which the first of them opens.

* `ObjectName`, `splitFullName` — the full name of an object, and how it is taken apart again;
* `Database` — the index with the mark of an open segment; `openSegment`, `addAndFlush`, `removeEntry`,
  `markWriteEnd`, `abortSegment`, and what each of them does to the replay of the index file;
* `DataWriter.database` and its lemmas — the calls of a data writer, seen from its index: what the units
  of the write-back queue do there is `openSegment` and `addAndFlush`, for the entry that the writer
  makes.
-/

namespace Fly.Storage

open Fly.Lib List Replay LogEntry LocalIndex IndexEntry Table Change

/-! ### Names -/

/-- An object by its database and its name there.  That a name has no colon is what the source relies on
when it takes a full name apart. -/
structure ObjectName where
  dbPath : String
  shortName : String
  dbPath_ne_empty : dbPath ≠ ""
  colon_notMem : ':' ∉ shortName.toList

namespace ObjectName

def full (object : ObjectName) : String := object.dbPath ++ ":" ++ object.shortName

end ObjectName

/-- The parts before and after the last colon; empty strings if there is none. -/
def splitFullName (full : String) : String × String :=
  let chars := full.toList.reverse
  match chars.dropWhile (· ≠ ':') with
  | [] => ("", "")
  | _ :: front =>
    (.ofList front.reverse, .ofList (chars.takeWhile (· ≠ ':')).reverse)

variable {name : String} {entry : IndexEntry}

/-- A full name is taken apart where it was put together. -/
theorem splitFullName_append (dbPath : String) (hname : ':' ∉ name.toList) :
    splitFullName (dbPath ++ ":" ++ name) = (dbPath, name) := by
  have hchars : (dbPath ++ ":" ++ name).toList.reverse =
      name.toList.reverse ++ ':' :: dbPath.toList.reverse := by
    simp
  have hfree : ∀ a ∈ name.toList.reverse, decide (a ≠ ':') = true := by
    intro a ha
    refine decide_eq_true fun heq => hname ?_
    rw [← heq]
    exact mem_reverse.mp ha
  have hdrop : (name.toList.reverse ++ ':' :: dbPath.toList.reverse).dropWhile (· ≠ ':') =
      ':' :: dbPath.toList.reverse := by
    rw [dropWhile_append_of_pos hfree, dropWhile_cons_of_neg (by simp)]
  have htake : (name.toList.reverse ++ ':' :: dbPath.toList.reverse).takeWhile (· ≠ ':') =
      name.toList.reverse := by
    rw [takeWhile_append_of_pos hfree, takeWhile_cons_of_neg (by simp), append_nil]
  rw [splitFullName, hchars]
  simp only [hdrop, htake, reverse_reverse, String.ofList_toList]

@[simp] theorem splitFullName_full (object : ObjectName) :
    splitFullName object.full = (object.dbPath, object.shortName) :=
  splitFullName_append object.dbPath object.colon_notMem

/-! ### The index side of a database -/

structure Database where
  index : LocalIndex String IndexEntry := {}
  segmentActive : Bool := false

namespace Database

variable (d : Database)

def markWriteBegin : Database := ⟨d.index.markBegin, true⟩

def markWriteEnd : Database := ⟨d.index.markEnd, false⟩

def abortSegment : Database :=
  if d.segmentActive then ⟨d.index.markAbort, false⟩ else d

/-- How a unit of the write-back queue begins when it works for a task. -/
def openSegment : Database := if d.segmentActive then d else d.markWriteBegin

/-- How it ends: the entry of the record is added, and the index saved. -/
def addAndFlush (entry : IndexEntry) (adds : List (String × List IndexEntry))
    (removes : List String) : Option Database :=
  ((d.index.addEntry objectName entry).save adds removes).map fun index => { d with index }

def removeEntry (name : String) : Database :=
  { d with index := (d.index.removeEntry name).2 }

/-- What the index file holds, replayed. -/
def replay : Replay String IndexEntry := d.index.log.foldl apply {}

theorem load_file (c : IndexCodec String IndexEntry) (d : Database)
    (hsized : ∀ r ∈ d.index.log, (r.body c).length < 256 ^ 7) :
    load c (d.index.file c) = d.replay.entries := by
  have hfits := (framing c).fitting_append_length d.index.log []
  have hwhole := load_take_encodeAll hsized ((framing c).encodeAll d.index.log).length
  rw [append_nil] at hfits
  rw [take_length, hfits] at hwhole
  exact hwhole

theorem replay_markWriteBegin : d.markWriteBegin.replay = { d.replay with inSegment := true, pending := ∅ } :=
  foldl_concat ..

theorem replay_markWriteEnd : d.markWriteEnd.replay =
      { entries := d.replay.pending ∪ d.replay.entries, pending := ∅, inSegment := false } :=
  foldl_concat ..

variable {d}

theorem replay_abortSegment (hactive : d.segmentActive = d.replay.inSegment) :
    d.abortSegment.replay.entries = d.replay.entries ∧ d.abortSegment.replay.inSegment = false ∧
      d.abortSegment.segmentActive = false := by
  unfold abortSegment
  split
  · have happly : (Database.mk d.index.markAbort false).replay =
        { d.replay with pending := ∅, inSegment := false } := foldl_concat ..
    rw [happly]
    exact ⟨rfl, rfl, rfl⟩
  · next h =>
    rw [Bool.not_eq_true] at h
    exact ⟨rfl, by rw [← hactive, h], h⟩

theorem log_removeEntry (s : LocalIndex String IndexEntry) (name : String) :
    (s.removeEntry name).2.log = s.log := by
  unfold LocalIndex.removeEntry
  split <;> rfl

theorem replay_removeEntry (d : Database) (name : String) : (d.removeEntry name).replay = d.replay := by
  rw [replay, replay, removeEntry, log_removeEntry]

/-- Removals take effect at once, segment or not. -/
theorem replay_removes (removes : List String) (s : Replay String IndexEntry) :
    ((removes.map fun name => data (remove name)).foldl apply s).inSegment = s.inSegment ∧
      (∀ name, ((removes.map fun name => data (remove name)).foldl
        apply s).entries.lookup name = if name ∈ removes then none else s.entries.lookup name) ∧
      ∀ name, ((removes.map fun name => data (remove name)).foldl
        apply s).pending.lookup name = if name ∈ removes then none else s.pending.lookup name := by
  induction removes generalizing s with
  | nil => exact ⟨rfl, fun _ => rfl, fun _ => rfl⟩
  | cons first removes ih =>
    obtain ⟨hinside, hentries, hpending⟩ := ih (s.apply (.data (.remove first)))
    refine ⟨hinside, fun name => ?_, fun name => ?_⟩
    · rw [map_cons, foldl_cons, hentries]
      by_cases h : name = first <;> simp [apply, lookup_erase_eq, h]
    · rw [map_cons, foldl_cons, hpending]
      by_cases h : name = first <;> simp [apply, lookup_erase_eq, h]

/-- **A write inside a segment.**  The object has the new entry in the segment; the removals that were
collected are written with it, and take effect at once. -/
structure Added (d : Database) (entry : IndexEntry) (d' : Database) : Prop where
  segmentActive : d'.segmentActive = d.segmentActive
  inSegment : d'.replay.inSegment = true
  pendingAdds : d'.index.pendingAdds = ∅
  pendingRemoves : d'.index.pendingRemoves = ∅
  entries : ∀ name, d'.replay.entries.lookup name =
    if name ∈ d.index.pendingRemoves.erase entry.objectName then none else d.replay.entries.lookup name
  pending : ∀ name, d'.replay.pending.lookup name =
    if name = entry.objectName then some [entry]
    else if name ∈ d.index.pendingRemoves then none
    else d.replay.pending.lookup name

theorem added_of_addAndFlush {d' : Database} {adds : List (String × List IndexEntry)} {removes : List String}
    (hsaved : d.index.pendingAdds = ∅) (hinside : d.replay.inSegment = true)
    (h : d.addAndFlush entry adds removes = some d') : Added d entry d' := by
  obtain ⟨index, hsave, rfl⟩ := Option.map_eq_some_iff.mp h
  obtain ⟨hadds, hremoves, rfl⟩ := of_save rfl hsave
  -- the new entry is all there is to add
  have hone : pairs (d.index.addEntry objectName entry).pendingAdds = [(entry.objectName, [entry])] := by
    show pairs (upsert d.index.pendingAdds entry.objectName [] (· ++ [entry])) = _
    rw [hsaved]
    rfl
  rw [hone, perm_singleton] at hadds
  subst hadds
  have hmem : ∀ name, name ∈ removes ↔ name ∈ d.index.pendingRemoves.erase entry.objectName := by
    intro name
    rw [← mem_toFinset, hremoves]
    rfl
  have hbatch : (savedChanges [(entry.objectName, [entry])] removes).map data =
      .data (.add entry.objectName [entry]) :: removes.map fun name => data (remove name) := by
    simp [savedChanges]
  have hreplay : (d.index.log ++ (savedChanges [(entry.objectName, [entry])] removes).map
      data).foldl apply {} =
      (removes.map fun name => data (remove name)).foldl apply
        { d.replay with pending := d.replay.pending.insert entry.objectName [entry] } := by
    rw [foldl_append, hbatch, foldl_cons]
    show List.foldl apply (d.replay.apply (.data (.add entry.objectName [entry]))) _ = _
    rw [apply, if_pos hinside]
  obtain ⟨hsegment, hentries, hpending⟩ := replay_removes removes
    { d.replay with pending := d.replay.pending.insert entry.objectName [entry] }
  rw [← hreplay] at hsegment hentries hpending
  refine ⟨rfl, hsegment.trans hinside, rfl, rfl, fun name => ?_, fun name => ?_⟩
  · refine (hentries name).trans ?_
    simp only [hmem]
  · refine (hpending name).trans ?_
    simp only [hmem, lookup_insert_eq, Finset.mem_erase]
    by_cases hname : name = entry.objectName <;> simp [hname]

end Database

/-! ### A data writer, seen from its index -/

namespace DataWriter

variable (w : DataWriter)

def database : Database := ⟨w.index, w.segmentPoint.active⟩

theorem database_markBegin : w.markBegin.database = w.database.markWriteBegin := rfl

theorem database_markEnd : w.markEnd.database = w.database.markWriteEnd := rfl

theorem database_removeEntry (name : String) :
    (w.removeEntry name).2.database = w.database.removeEntry name := rfl

theorem database_abortSegment : w.abortSegment.database = w.database.abortSegment :=
  apply_ite database (w.segmentPoint.active = true) _ _

/-- The segment that `commit_write` and `open_write_stream` open. -/
def openSegment : DataWriter := if w.segmentPoint.active then w else w.markBegin

theorem database_openSegment : w.openSegment.database = w.database.openSegment :=
  apply_ite database (w.segmentPoint.active = true) _ _

variable {w} {d : Database} {removes : List String} {w' : DataWriter} {adds : List (String × List IndexEntry)}
  {originalSize chunkCount : ℤ}

theorem database_of_flush (hindex : w.index = d.index.addEntry objectName entry)
    (hactive : w.segmentPoint.active = d.segmentActive) (h : w.flush adds removes = some w') :
    d.addAndFlush entry adds removes = some w'.database := by
  obtain ⟨index, hsave, rfl⟩ := Option.map_eq_some_iff.mp h
  rw [hindex] at hsave
  rw [Database.addAndFlush, hsave, Option.map_some, ← hactive]
  rfl

/-- A record at the end of the current file leaves its entry in the index. -/
theorem index_appendRecord (w : DataWriter) (name : String) (originalSize chunkCount : ℤ)
    (record : Bytes) (hash : String) :
    ∃ entry : IndexEntry, entry.objectName = name ∧ entry.writeContextHash = hash ∧
      (w.appendRecord name originalSize chunkCount record hash).index = w.index.addEntry objectName entry ∧
      (w.appendRecord name originalSize chunkCount record hash).segmentPoint = w.segmentPoint := by
  have hstream : (w.streamWrite record).index = w.index ∧
      (w.streamWrite record).segmentPoint = w.segmentPoint := by
    unfold streamWrite
    split <;> exact ⟨rfl, rfl⟩
  unfold appendRecord
  dsimp only
  rw [hstream.1, hstream.2]
  refine ⟨_, ?_, ?_, rfl, rfl⟩ <;> rfl

/-- **The unit of `commit_write`** adds an entry of the object with the hash of the write. -/
theorem database_commitUnit (hopen : w.closed = false) {hash : String} {record : Bytes}
    (h : (w.openSegment.writeRecordChecked name originalSize chunkCount record hash).2.flush adds removes =
      some w') :
    ∃ entry : IndexEntry, entry.objectName = name ∧ entry.writeContextHash = hash ∧
      w.database.openSegment.addAndFlush entry adds removes = some w'.database := by
  have hopen' : w.openSegment.closed = false := by
    unfold openSegment
    split <;> exact hopen
  rw [← database_openSegment]
  generalize w.openSegment = v at h hopen' ⊢
  -- the record goes to a new file or to the current one; the index is the same before
  have hfile : ∃ u : DataWriter, u.index = v.index ∧ u.segmentPoint = v.segmentPoint ∧
      (v.writeRecordChecked name originalSize chunkCount record hash).2 =
        u.appendRecord name originalSize chunkCount record hash := by
    rw [writeRecordChecked, if_neg (by simp [hopen']), writeRecord, if_neg (by simp [hopen'])]
    refine ⟨_, ?_, ?_, rfl⟩ <;> split <;> rfl
  obtain ⟨u, hindex, hpoint, hrecord⟩ := hfile
  obtain ⟨entry, hname, hhash, hadded, hsame⟩ :=
    u.index_appendRecord name originalSize chunkCount record hash
  rw [hrecord] at h
  rw [hindex] at hadded
  exact ⟨entry, hname, hhash, database_of_flush (d := v.database) hadded (by rw [hsame, hpoint]; rfl) h⟩

/-- **The unit that ends a stream** adds an entry of the object, without a hash. -/
theorem database_streamUnit (hbegun : w.incremental.isSome)
    (h : (w.finishIncremental name originalSize chunkCount "").flush adds removes = some w') :
    ∃ entry : IndexEntry, entry.objectName = name ∧ entry.writeContextHash = "" ∧
      w.database.addAndFlush entry adds removes = some w'.database := by
  obtain ⟨⟨offset, file⟩, hincremental⟩ := Option.isSome_iff_exists.mp hbegun
  have hadded : ∃ entry : IndexEntry, entry.objectName = name ∧ entry.writeContextHash = "" ∧
      (w.finishIncremental name originalSize chunkCount "").index =
        w.index.addEntry objectName entry ∧
      (w.finishIncremental name originalSize chunkCount "").segmentPoint = w.segmentPoint := by
    rw [finishIncremental, hincremental]
    exact ⟨_, rfl, rfl, rfl, rfl⟩
  obtain ⟨entry, hname, hhash, hindex, hpoint⟩ := hadded
  exact ⟨entry, hname, hhash, database_of_flush (d := w.database) hindex (by rw [hpoint]; rfl) h⟩

end DataWriter

end Fly.Storage
