import Mathlib.Logic.Function.Basic
import Mathlib.Algebra.Order.Ring.Int
import Fly.Storage.LocalIndex

/-!
# The data writer

A data writer appends records to its data files, one after another, and notes in its index which range
of which file holds an object.  A record is written at once or piece by piece (an incremental record).
A segment can be taken back: the files it opened are deleted, the one it started in is truncated.

* `IndexEntry`, `SegmentRollbackPoint`, `DataWriter` — the state; a data file is known by its number,
  from which `get_file_name` makes the name, and `files` is what the files hold, written bytes that are
  still in the buffer of the stream included;
* `writeRecordChecked`, `beginIncremental`, `appendIncremental`, `finishIncremental`, `flush`,
  `removeEntry`, `markBegin`, `markEnd`, `abortSegment`, `getLastEntry`, `getAllEntries`, `close` — the
  operations;
* `stream`, `written` — which bytes a call completes a record of, read off the calls before it;
* `getLastEntry_step_iff` — a completed write always adds an entry whose range holds exactly its bytes;
  `get_last_entry` returns that entry **iff** the object had no entry yet, or its oldest entry is the
  same in every field: the accessor reads the front of a list that grows at its back.
-/

namespace Fly.Storage

open Fly.Lib List Option Function Bool

/-- Where an object lies.  Sizes are signed in the source. -/
structure IndexEntry where
  objectName : String
  /-- the number of the data file -/
  fileName : ℕ
  offset : ℕ
  size : ℤ
  isLarge : Bool := false
  blockCount : ℤ
  host : String
  writeContextHash : String
  deriving DecidableEq, Repr

/-- Where the open segment started. -/
structure SegmentRollbackPoint where
  fileIndex : ℕ := 1
  fileOffset : ℕ := 0
  active : Bool := false

structure DataWriter where
  aggregationThreshold : ℤ
  host : String
  files : ℕ → Bytes
  /-- the file the stream is open on -/
  currentFile : ℕ
  fileIndex : ℕ
  currentFileSize : ℕ
  index : LocalIndex String IndexEntry
  totalBytes : ℤ := 0
  closed : Bool := false
  segmentPoint : SegmentRollbackPoint := {}
  /-- start and file of the incremental record; the source has `-1` for none -/
  incremental : Option (ℕ × ℕ) := none

namespace DataWriter

variable (w : DataWriter)

/-! ### Files and the stream -/

/-- Opening a file for writing empties it. -/
def createNewFile : DataWriter :=
  { w with
    currentFile := w.fileIndex
    files := update w.files w.fileIndex []
    currentFileSize := 0 }

/-- The constructor, after its search for the first number without a file: `files` may hold files of
earlier writers, and `index` what was loaded from an index file. -/
def create (aggregationThreshold : ℤ) (host : String) (files : ℕ → Bytes)
    (index : LocalIndex String IndexEntry) (fileIndex : ℕ) : DataWriter :=
  createNewFile
    { aggregationThreshold, host, files, currentFile := fileIndex, fileIndex,
      currentFileSize := 0, index }

def rollover : DataWriter := createNewFile { w with fileIndex := w.fileIndex + 1 }

/-- The stream only ever appends: a file is opened empty or for appending.  A closed stream writes
nothing. -/
def streamWrite (data : Bytes) : DataWriter :=
  if w.closed then w
  else { w with files := update w.files w.currentFile (w.files w.currentFile ++ data) }

def tellp : ℕ := (w.files w.currentFile).length

/-! ### Records written at once -/

/-- The record at the end of the current file, and its entry. -/
def appendRecord (objectName : String) (originalSize chunkCount : ℤ) (record : Bytes)
    (writeContextHash : String) : DataWriter :=
  let offset := w.currentFileSize
  let w := w.streamWrite record
  let endPos := w.tellp
  let entry : IndexEntry :=
    { objectName, fileName := w.currentFile, offset, size := (endPos : ℤ) - offset,
      blockCount := chunkCount, host := w.host, writeContextHash }
  { w with
    currentFileSize := endPos
    index := w.index.addEntry IndexEntry.objectName entry
    totalBytes := w.totalBytes + originalSize }

def writeRecord (objectName : String) (originalSize chunkCount : ℤ) (record : Bytes)
    (writeContextHash : String) : DataWriter :=
  if w.closed then w
  else
    let w := if (w.currentFileSize : ℤ) + record.length > w.aggregationThreshold ∧
      w.currentFileSize > 0 then w.rollover else w
    w.appendRecord objectName originalSize chunkCount record writeContextHash

/-- The answer is whether the record was written; the stream itself never fails here. -/
def writeRecordChecked (objectName : String) (originalSize chunkCount : ℤ)
    (record : Bytes) (writeContextHash : String) : Bool × DataWriter :=
  if w.closed then (false, w)
  else
    let w := w.writeRecord objectName originalSize chunkCount record writeContextHash
    (!w.closed, w)

/-! ### Incremental records -/

/-- The answer is the start of the record; the source has `-1` for none. -/
def beginIncremental : Option ℕ × DataWriter :=
  if w.closed then (none, w)
  else
    -- division rounds toward zero
    let w := if (w.currentFileSize : ℤ) > w.aggregationThreshold.tdiv 2 ∧ w.currentFileSize > 0
      then w.rollover else w
    (some w.currentFileSize, { w with incremental := some (w.currentFileSize, w.currentFile) })

def appendIncremental (data : Bytes) : DataWriter :=
  match w.incremental with
  | none => w
  | some _ =>
    let w := w.streamWrite data
    { w with currentFileSize := w.currentFileSize + data.length }

def finishIncremental (objectName : String) (originalSize chunkCount : ℤ)
    (writeContextHash : String) : DataWriter :=
  match w.incremental with
  | none => w
  | some (offset, file) =>
    let entry : IndexEntry :=
      { objectName, fileName := file, offset, size := (w.currentFileSize : ℤ) - offset,
        blockCount := chunkCount, host := w.host, writeContextHash }
    { w with
      index := w.index.addEntry IndexEntry.objectName entry
      totalBytes := w.totalBytes + originalSize
      incremental := none }

/-! ### The index and segments -/

def flush (adds : List (String × List IndexEntry)) (removes : List String) : Option DataWriter :=
  (w.index.save adds removes).map fun index => { w with index }

def removeEntry (objectName : String) : Bool × DataWriter :=
  ((w.index.removeEntry objectName).1, { w with index := (w.index.removeEntry objectName).2 })

def getLastEntry (objectName : String) : Option IndexEntry :=
  w.index.findEntry objectName

def getAllEntries (objectName : String) : Option (List IndexEntry) :=
  w.index.findAllEntries objectName

def markBegin : DataWriter :=
  { w with
    segmentPoint := { fileIndex := w.fileIndex, fileOffset := w.currentFileSize, active := true }
    index := w.index.markBegin }

def markEnd : DataWriter :=
  { w with segmentPoint := { w.segmentPoint with active := false }, index := w.index.markEnd }

/-- `resize_file`: cut off, or fill up with zeros. -/
def resize (data : Bytes) (size : ℕ) : Bytes := data.take size ++ List.replicate (size - data.length) 0

def rollbackDataFile : DataWriter :=
  let point := w.segmentPoint
  { w with
    files := fun file =>
      if file = point.fileIndex then resize (w.files file) point.fileOffset
      else if point.fileIndex < file ∧ file ≤ w.fileIndex then []
      else w.files file
    fileIndex := min w.fileIndex point.fileIndex
    currentFile := point.fileIndex
    currentFileSize := point.fileOffset }

def abortSegment : DataWriter :=
  if w.segmentPoint.active then
    let w := { w with index := w.index.markAbort }.rollbackDataFile
    { w with segmentPoint := { w.segmentPoint with active := false } }
  else w

def close (adds : List (String × List IndexEntry)) (removes : List String) : Option DataWriter :=
  if w.closed then some w
  else (w.index.save adds removes).map fun index => { w with index, closed := true }

variable {w} {w' : DataWriter} {e : IndexEntry} {name : String} {data : Bytes}

/-- Saving the index leaves the entries and the files alone. -/
theorem of_flush {adds : List (String × List IndexEntry)} {removes : List String}
    (h : w.flush adds removes = some w') :
    w'.files = w.files ∧ ∀ name, w'.getAllEntries name = w.getAllEntries name := by
  obtain ⟨index, hindex, rfl⟩ := map_eq_some_iff.mp h
  refine ⟨rfl, fun name => ?_⟩
  show index.entries.lookup name = w.index.entries.lookup name
  rw [LocalIndex.entries_of_save hindex]

/-! ### Calls -/

inductive Call where
  | writeRecordChecked (objectName : String) (originalSize chunkCount : ℤ) (record : Bytes)
      (writeContextHash : String)
  | beginIncremental
  | appendIncremental (data : Bytes)
  | finishIncremental (objectName : String) (originalSize chunkCount : ℤ) (writeContextHash : String)
  | flush (adds : List (String × List IndexEntry)) (removes : List String)
  | removeEntry (objectName : String)
  | markBegin
  | markEnd
  | abortSegment

variable {calls : List Call} {call : Call}

def step (w : DataWriter) : Call → Option DataWriter
  | .writeRecordChecked name originalSize chunkCount record hash =>
    some (w.writeRecordChecked name originalSize chunkCount record hash).2
  | .beginIncremental => some w.beginIncremental.2
  | .appendIncremental data => some (w.appendIncremental data)
  | .finishIncremental name originalSize chunkCount hash =>
    some (w.finishIncremental name originalSize chunkCount hash)
  | .flush adds removes => w.flush adds removes
  | .removeEntry name => some (w.removeEntry name).2
  | .markBegin => some w.markBegin
  | .markEnd => some w.markEnd
  | .abortSegment => some w.abortSegment

/-- The bytes appended to the incremental record since it began; `none` if there is none, or if another
record was written or a segment taken back in between. -/
def streamStep (stream : Option Bytes) : Call → Option Bytes
  | .beginIncremental => some []
  | .appendIncremental data => stream.map (· ++ data)
  | .finishIncremental .. | .writeRecordChecked .. | .abortSegment => none
  | .flush .. | .removeEntry _ | .markBegin | .markEnd => stream

def stream (calls : List Call) : Option Bytes := calls.foldl streamStep none

/-- The object a call completes a write of, and the bytes written for it. -/
def written (calls : List Call) : Call → Option (String × Bytes)
  | .writeRecordChecked name _ _ record _ => some (name, record)
  | .finishIncremental name _ _ _ => (stream calls).map fun data => (name, data)
  | _ => none

/-- What a completing call says of the record. -/
def Call.chunkCount : Call → ℤ
  | .writeRecordChecked _ _ chunkCount _ _ | .finishIncremental _ _ chunkCount _ => chunkCount
  | _ => 0

def Call.writeContextHash : Call → String
  | .writeRecordChecked _ _ _ _ hash | .finishIncremental _ _ _ hash => hash
  | _ => ""

/-- The range an entry names holds exactly these bytes. -/
def Holds (w : DataWriter) (e : IndexEntry) (data : Bytes) : Prop :=
  e.size = data.length ∧ ((w.files e.fileName).drop e.offset).take data.length = data

instance (w : DataWriter) (e : IndexEntry) (data : Bytes) : Decidable (w.Holds e data) :=
  inferInstanceAs (Decidable (_ ∧ _))

theorem holds_congr (h : w'.files = w.files) (e : IndexEntry) (data : Bytes) :
    w'.Holds e data ↔ w.Holds e data := by
  rw [Holds, Holds, h]

/-! ### The position of the writer -/

/-- The stream stands at the end of the file with the highest number, and the rollback point of an open
segment lies before it. -/
structure Positioned (w : DataWriter) : Prop where
  opened : w.closed = false
  current : w.currentFile = w.fileIndex
  size : w.currentFileSize = (w.files w.fileIndex).length
  point : w.segmentPoint.active → w.segmentPoint.fileIndex ≤ w.fileIndex ∧
    w.segmentPoint.fileOffset ≤ (w.files w.segmentPoint.fileIndex).length

namespace Positioned

section

variable (h : w.Positioned)

include h

theorem rollover : w.rollover.Positioned where
  opened := h.opened
  current := rfl
  size := by
    show 0 = (update w.files (w.fileIndex + 1) [] (w.fileIndex + 1)).length
    rw [update_self]
    rfl
  point hactive := by
    have hpoint := h.point hactive
    have hne : w.segmentPoint.fileIndex ≠ w.fileIndex + 1 := by omega
    show w.segmentPoint.fileIndex ≤ w.fileIndex + 1 ∧ w.segmentPoint.fileOffset ≤
        (update w.files (w.fileIndex + 1) [] w.segmentPoint.fileIndex).length
    rw [update_of_ne hne]
    exact ⟨by omega, hpoint.2⟩

theorem streamWrite_eq (data : Bytes) :
    w.streamWrite data = { w with
      files := update w.files w.fileIndex (w.files w.fileIndex ++ data) } := by
  rw [streamWrite, h.opened, h.current]
  rfl

/-- Appending, with the size brought up to date. -/
theorem append (data : Bytes) (hclosed : w'.closed = w.closed) (hcurrent : w'.currentFile = w.currentFile)
    (hindex : w'.fileIndex = w.fileIndex) (hpoint : w'.segmentPoint = w.segmentPoint)
    (hfiles : w'.files = update w.files w.fileIndex (w.files w.fileIndex ++ data))
    (hsize : w'.currentFileSize = w.currentFileSize + data.length) : w'.Positioned where
  opened := hclosed.trans h.opened
  current := by rw [hcurrent, hindex, h.current]
  size := by rw [hsize, hfiles, hindex, update_self, length_append, h.size]
  point hactive := by
    rw [hpoint] at hactive ⊢
    have hbefore := h.point hactive
    rw [hindex, hfiles]
    refine ⟨hbefore.1, ?_⟩
    by_cases hfile : w.segmentPoint.fileIndex = w.fileIndex
    · rw [hfile, update_self, length_append, ← hfile]
      omega
    · rw [update_of_ne hfile]
      exact hbefore.2

theorem congr (hclosed : w'.closed = w.closed)
    (hcurrent : w'.currentFile = w.currentFile) (hindex : w'.fileIndex = w.fileIndex)
    (hsize : w'.currentFileSize = w.currentFileSize) (hfiles : w'.files = w.files)
    (hpoint : w'.segmentPoint = w.segmentPoint) : w'.Positioned := by
  refine ⟨hclosed.trans h.opened, ?_, ?_, ?_⟩
  · rw [hcurrent, hindex, h.current]
  · rw [hsize, hfiles, hindex, h.size]
  · rw [hpoint, hindex, hfiles]
    exact h.point

theorem markBegin : w.markBegin.Positioned :=
  ⟨h.opened, h.current, h.size, fun _ => ⟨le_rfl, h.size.le⟩⟩

theorem markEnd : w.markEnd.Positioned :=
  ⟨h.opened, h.current, h.size, fun hactive => (false_ne_true hactive).elim⟩

theorem abortSegment : w.abortSegment.Positioned := by
  unfold DataWriter.abortSegment
  split
  · next hactive =>
    obtain ⟨hfile, hoffset⟩ := h.point hactive
    have hindex : min w.fileIndex w.segmentPoint.fileIndex = w.segmentPoint.fileIndex :=
      Nat.min_eq_right hfile
    refine ⟨h.opened, hindex.symm, ?_, fun hactive => (false_ne_true hactive).elim⟩
    show w.segmentPoint.fileOffset =
      ((if min w.fileIndex w.segmentPoint.fileIndex = w.segmentPoint.fileIndex then
        resize (w.files (min w.fileIndex w.segmentPoint.fileIndex)) w.segmentPoint.fileOffset
      else _) : Bytes).length
    rw [if_pos hindex, hindex, resize, length_append, length_take, length_replicate]
    omega
  · exact h

end

end Positioned

/-- What completing a write of `data` for object `name` does: the index gets one more entry, whose range is
the end of the current file and holds the data. -/
structure Adds (w w' : DataWriter) (name : String) (data : Bytes) (chunkCount : ℤ) (hash : String)
    (e : IndexEntry) : Prop where
  entry : e =
    { objectName := name, fileName := w'.currentFile, offset := w'.currentFileSize - data.length,
      size := data.length, blockCount := chunkCount, host := w.host, writeContextHash := hash }
  holds : w'.Holds e data
  index : w'.index = w.index.addEntry IndexEntry.objectName e

theorem Positioned.tellp_streamWrite (h : w.Positioned) (data : Bytes) :
    (w.streamWrite data).tellp = w.currentFileSize + data.length := by
  rw [h.streamWrite_eq, tellp, h.current]
  show (update w.files w.fileIndex (w.files w.fileIndex ++ data) w.fileIndex).length = _
  rw [update_self, length_append, h.size]

theorem Positioned.appendRecord (h : w.Positioned) (name : String)
    (originalSize chunkCount : ℤ) (record : Bytes) (hash : String) :
    (w.appendRecord name originalSize chunkCount record hash).Positioned ∧
      ∃ e, Adds w (w.appendRecord name originalSize chunkCount record hash) name record chunkCount
        hash e := by
  have hend := h.tellp_streamWrite record
  unfold DataWriter.appendRecord
  dsimp only
  rw [hend, h.streamWrite_eq]
  -- the size noted is the length of the record
  have hsize : ((w.currentFileSize + record.length : ℕ) : ℤ) - (w.currentFileSize : ℤ) =
      record.length := by omega
  refine ⟨h.append record rfl rfl rfl rfl rfl rfl, _, ?_, ⟨hsize, ?_⟩, rfl⟩
  · simp
  · show ((update w.files w.fileIndex (w.files w.fileIndex ++ record) w.currentFile).drop
      w.currentFileSize).take record.length = record
    rw [h.current, update_self, h.size, drop_left, take_length]

theorem Positioned.writeRecord (h : w.Positioned) (name : String)
    (originalSize chunkCount : ℤ) (record : Bytes) (hash : String) :
    (w.writeRecord name originalSize chunkCount record hash).Positioned ∧
      ∃ e, Adds w (w.writeRecord name originalSize chunkCount record hash) name record chunkCount hash e := by
  unfold DataWriter.writeRecord
  rw [if_neg (by rw [h.opened]; exact false_ne_true)]
  split
  · obtain ⟨hpositioned, e, he⟩ :=
      h.rollover.appendRecord name originalSize chunkCount record hash
    exact ⟨hpositioned, e, he.entry, he.holds, he.index⟩
  · exact h.appendRecord name originalSize chunkCount record hash

/-- The incremental record so far: it lies behind `front` at the end of the current file. -/
def Streaming (w : DataWriter) (data : Bytes) : Prop :=
  ∃ front : Bytes, w.incremental = some (front.length, w.fileIndex) ∧ w.files w.fileIndex = front ++ data

theorem Positioned.finishIncremental (h : w.Positioned)
    (hdata : w.Streaming data) (name : String) (originalSize chunkCount : ℤ) (hash : String) :
    ∃ e, Adds w (w.finishIncremental name originalSize chunkCount hash) name data chunkCount hash e := by
  obtain ⟨front, hincremental, hfile⟩ := hdata
  have hsize : w.currentFileSize = front.length + data.length := by
    rw [h.size, hfile, length_append]
  unfold DataWriter.finishIncremental
  rw [hincremental]
  have hlength : (w.currentFileSize : ℤ) - (front.length : ℤ) = data.length := by omega
  refine ⟨_, ?_, ⟨hlength, ?_⟩, rfl⟩
  · simp [h.current, hsize]
  · rw [hfile, drop_left, take_length]

/-! ### Runs -/

/-- What holds after any calls. -/
structure Tracked (calls : List Call) (w : DataWriter) : Prop where
  positioned : w.Positioned
  streaming : ∀ data, stream calls = some data → w.Streaming data

theorem stream_concat (calls : List Call) (call : Call) :
    stream (calls ++ [call]) = streamStep (stream calls) call := by
  rw [stream, foldl_append]
  rfl

/-- A call that leaves files and incremental record alone. -/
theorem Tracked.of_same (h : Tracked calls w)
    (hpositioned : w'.Positioned) (hstream : streamStep (stream calls) call = stream calls)
    (hincremental : w'.incremental = w.incremental) (hindex : w'.fileIndex = w.fileIndex)
    (hfiles : w'.files = w.files) : Tracked (calls ++ [call]) w' := by
  refine ⟨hpositioned, fun data hdata => ?_⟩
  rw [stream_concat, hstream] at hdata
  obtain ⟨front, hrecord, hfile⟩ := h.streaming data hdata
  exact ⟨front, by rw [hincremental, hindex, hrecord], by rw [hfiles, hindex, hfile]⟩

/-- A call after which there is no clean incremental record. -/
theorem Tracked.of_none (hpositioned : w'.Positioned) (hstream : streamStep (stream calls) call = none) :
    Tracked (calls ++ [call]) w' := by
  refine ⟨hpositioned, fun data hdata => ?_⟩
  rw [stream_concat, hstream] at hdata
  cases hdata

theorem Positioned.beginIncremental (h : w.Positioned) :
    w.beginIncremental.2.Positioned ∧ w.beginIncremental.2.Streaming [] := by
  have hstart : ∀ v : DataWriter, v.Positioned →
      { v with incremental := some (v.currentFileSize, v.currentFile) }.Positioned ∧
        { v with incremental := some (v.currentFileSize, v.currentFile) }.Streaming [] :=
    fun v hv => ⟨hv.congr rfl rfl rfl rfl rfl rfl, v.files v.fileIndex, by rw [hv.size, hv.current],
      (append_nil _).symm⟩
  unfold DataWriter.beginIncremental
  rw [if_neg (by rw [h.opened]; exact false_ne_true)]
  split
  · exact hstart _ h.rollover
  · exact hstart _ h

theorem Positioned.appendIncremental (h : w.Positioned) (more : Bytes) :
    (w.appendIncremental more).Positioned ∧
      ∀ data, w.Streaming data → (w.appendIncremental more).Streaming (data ++ more) := by
  unfold DataWriter.appendIncremental
  cases hincremental : w.incremental with
  | none =>
    refine ⟨h, fun data hdata => ?_⟩
    obtain ⟨front, hrecord, -⟩ := hdata
    rw [hincremental] at hrecord
    cases hrecord
  | some record =>
    rw [h.streamWrite_eq]
    refine ⟨h.append more rfl rfl rfl rfl rfl rfl, fun data hdata => ?_⟩
    obtain ⟨front, hrecord, hfile⟩ := hdata
    refine ⟨front, hrecord, ?_⟩
    show update w.files w.fileIndex (w.files w.fileIndex ++ more) w.fileIndex = _
    rw [update_self, hfile, append_assoc]

theorem Tracked.beginIncremental (h : Tracked calls w) :
    Tracked (calls ++ [.beginIncremental]) w.beginIncremental.2 := by
  obtain ⟨hpositioned, hstreaming⟩ := h.positioned.beginIncremental
  refine ⟨hpositioned, fun data hdata => ?_⟩
  rw [stream_concat] at hdata
  cases hdata
  exact hstreaming

theorem Tracked.appendIncremental (h : Tracked calls w)
    (more : Bytes) : Tracked (calls ++ [.appendIncremental more]) (w.appendIncremental more) := by
  obtain ⟨hpositioned, hstreaming⟩ := h.positioned.appendIncremental more
  refine ⟨hpositioned, fun data hdata => ?_⟩
  rw [stream_concat] at hdata
  obtain ⟨before, hbefore, rfl⟩ := map_eq_some_iff.mp hdata
  exact hstreaming before (h.streaming before hbefore)

theorem writeRecordChecked_eq (h : w.Positioned) (name : String)
    (originalSize chunkCount : ℤ) (record : Bytes) (hash : String) :
    (w.writeRecordChecked name originalSize chunkCount record hash).2 =
      w.writeRecord name originalSize chunkCount record hash := by
  rw [writeRecordChecked, if_neg (by rw [h.opened]; exact false_ne_true)]

theorem Tracked.step (h : Tracked calls w)
    (hstep : w.step call = some w') : Tracked (calls ++ [call]) w' := by
  cases call with
  | writeRecordChecked name originalSize chunkCount record hash =>
    cases hstep
    rw [writeRecordChecked_eq h.positioned]
    exact .of_none (h.positioned.writeRecord ..).1 rfl
  | beginIncremental =>
    cases hstep
    exact h.beginIncremental
  | appendIncremental data =>
    cases hstep
    exact h.appendIncremental data
  | finishIncremental name originalSize chunkCount hash =>
    cases hstep
    refine .of_none ?_ rfl
    unfold DataWriter.finishIncremental
    split
    · exact h.positioned
    · exact h.positioned.congr rfl rfl rfl rfl rfl rfl
  | flush adds removes =>
    obtain ⟨index, -, rfl⟩ := map_eq_some_iff.mp hstep
    exact h.of_same (h.positioned.congr rfl rfl rfl rfl rfl rfl) rfl rfl rfl rfl
  | removeEntry name =>
    cases hstep
    exact h.of_same (h.positioned.congr rfl rfl rfl rfl rfl rfl) rfl rfl rfl rfl
  | markBegin =>
    cases hstep
    exact h.of_same h.positioned.markBegin rfl rfl rfl rfl
  | markEnd =>
    cases hstep
    exact h.of_same h.positioned.markEnd rfl rfl rfl rfl
  | abortSegment =>
    cases hstep
    exact .of_none h.positioned.abortSegment rfl

theorem tracked_run {threshold : ℤ} {host : String} {files : ℕ → Bytes}
    {index : LocalIndex String IndexEntry} {fileIndex : ℕ}
    (h : run step (create threshold host files index fileIndex) calls = some w) :
    Tracked calls w := by
  refine run_history (I := Tracked) ?_ (fun hist call rest v v' _ _ hv hstep => hv.step hstep) h
  refine ⟨⟨rfl, rfl, ?_, fun h => (Bool.false_ne_true h).elim⟩, nofun⟩
  show 0 = (update files fileIndex [] fileIndex).length
  rw [update_self]
  rfl

/-- A new writer after any calls, closed or not. -/
inductive Reachable : DataWriter → Prop
  | opened {threshold : ℤ} {host : String} {files : ℕ → Bytes} {index : LocalIndex String IndexEntry}
      {fileIndex : ℕ} {calls : List Call} {w : DataWriter}
      (h : run step (create threshold host files index fileIndex) calls = some w) : Reachable w
  | closed {w w' : DataWriter} {adds : List (String × List IndexEntry)} {removes : List String}
      (before : Reachable w) (h : w.close adds removes = some w') : Reachable w'

/-- But for its being closed, such a writer is positioned. -/
theorem Reachable.positioned (h : Reachable w) : { w with closed := false }.Positioned := by
  induction h with
  | opened h =>
    have hpositioned := (tracked_run h).positioned
    exact hpositioned.congr hpositioned.opened.symm rfl rfl rfl rfl rfl
  | closed before h ih =>
    unfold close at h
    split at h
    · cases h
      exact ih
    · obtain ⟨index, -, rfl⟩ := map_eq_some_iff.mp h
      exact ih.congr rfl rfl rfl rfl rfl rfl

/-- A completed write adds an entry that names its bytes. -/
theorem Tracked.adds (h : Tracked calls w) (hwritten : written calls call = some (name, data))
    (hstep : w.step call = some w') : ∃ e, Adds w w' name data call.chunkCount call.writeContextHash e := by
  cases call with
  | writeRecordChecked name originalSize chunkCount record hash =>
    cases hwritten
    cases hstep
    rw [writeRecordChecked_eq h.positioned]
    exact (h.positioned.writeRecord ..).2
  | finishIncremental name originalSize chunkCount hash =>
    obtain ⟨data, hdata, heq⟩ := map_eq_some_iff.mp hwritten
    cases heq
    cases hstep
    exact h.positioned.finishIncremental (h.streaming data hdata) ..
  | _ => cases hwritten

variable {chunkCount : ℤ} {hash : String}

theorem Adds.getAllEntries (h : Adds w w' name data chunkCount hash e) :
    w'.getAllEntries name = some ((w.getAllEntries name).getD [] ++ [e]) := by
  have hname : e.objectName = name := by rw [h.entry]
  show w'.index.entries.lookup name = _
  rw [h.index]
  show (Table.upsert w.index.entries e.objectName [] (· ++ [e])).lookup name = _
  rw [Table.lookup_upsert, hname, if_pos rfl]
  rfl

/-- The accessor sees the new entry only if there was none, or the oldest one is just like it. -/
theorem Adds.getLastEntry_iff (h : Adds w w' name data chunkCount hash e) : w'.getLastEntry name = some e ↔
      w.getLastEntry name = none ∨ w.getLastEntry name = some e := by
  have hbefore : w.getLastEntry name = ((w.getAllEntries name).getD []).head? := by
    show (w.getAllEntries name).bind head? = _
    cases w.getAllEntries name <;> rfl
  have hafter : w'.getLastEntry name = ((w.getAllEntries name).getD [] ++ [e]).head? := by
    show (w'.getAllEntries name).bind head? = _
    rw [h.getAllEntries]
    rfl
  rw [hbefore, hafter]
  cases (w.getAllEntries name).getD [] with
  | nil => simp
  | cons first rest => simp

/-- **A completed write is read back by `get_last_entry` exactly when the object had no entry, or an
oldest entry for the same range, chunks, host and hash.**  For all calls on a new writer, whatever files and
index it found; an incremental record counts if no other record was written and no segment taken back
meanwhile. -/
theorem getLastEntry_step_iff {threshold : ℤ} {host : String} {files : ℕ → Bytes}
    {index : LocalIndex String IndexEntry} {fileIndex : ℕ} {calls : List Call} {call : Call}
    {w w' : DataWriter} {name : String} {data : Bytes}
    (hrun : run step (create threshold host files index fileIndex) calls = some w)
    (hwritten : written calls call = some (name, data)) (hstep : w.step call = some w') :
    ∃ e, w'.getAllEntries name = some ((w.getAllEntries name).getD [] ++ [e]) ∧ w'.Holds e data ∧
      (w'.getLastEntry name = some e ↔ w.getLastEntry name = none ∨ w.getLastEntry name = some
        { objectName := name, fileName := w'.currentFile, offset := w'.currentFileSize - data.length,
          size := data.length, blockCount := call.chunkCount, host := w.host,
          writeContextHash := call.writeContextHash }) := by
  obtain ⟨e, he⟩ := (tracked_run hrun).adds hwritten hstep
  exact ⟨e, he.getAllEntries, he.holds, he.entry ▸ he.getLastEntry_iff⟩

/-- A writer with no files and an empty index. -/
def fresh : DataWriter := create 100 "host" (fun _ => []) {} 1

def streamedCalls : List Call :=
  [.beginIncremental, .appendIncremental [1], .appendIncremental [2, 3]]

theorem getLastEntry_step_iff_streamed :
    ∃ w w', run step fresh streamedCalls = some w ∧ w.step (.finishIncremental "o" 3 1 "") = some w' ∧
      ∃ e, w'.getAllEntries "o" = some ((w.getAllEntries "o").getD [] ++ [e]) ∧
        w'.Holds e [1, 2, 3] ∧ (w'.getLastEntry "o" = some e ↔
          w.getLastEntry "o" = none ∨ w.getLastEntry "o" = some ⟨"o", 1, 0, 3, false, 1, "host", ""⟩) :=
  have hwritten : written streamedCalls (.finishIncremental "o" 3 1 "") = some ("o", [1, 2, 3]) := rfl
  ⟨_, _, rfl, rfl, getLastEntry_step_iff rfl hwritten rfl⟩

/-- Right after an object is written a second time, and right after it is written again behind an
aborted segment, the accessor names the range of the first write: the wrong bytes. -/
theorem getLastEntry_stale :
    (∃ w, run step fresh [.writeRecordChecked "o" 1 1 [1] "", .writeRecordChecked "o" 1 1 [2] ""] =
        some w ∧ ∃ e, w.getLastEntry "o" = some e ∧ ¬w.Holds e [2]) ∧
    ∃ w, run step fresh [.markBegin, .writeRecordChecked "o" 1 1 [1] "", .abortSegment,
        .writeRecordChecked "p" 1 1 [3] "", .writeRecordChecked "o" 1 1 [2] ""] = some w ∧
      ∃ e, w.getLastEntry "o" = some e ∧ ¬w.Holds e [2] :=
  ⟨⟨_, rfl, _, rfl, by decide⟩, _, rfl, _, rfl, by decide⟩

end DataWriter

end Fly.Storage
