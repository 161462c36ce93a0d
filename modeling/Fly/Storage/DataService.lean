import Fly.Lib.Run
import Fly.Lib.Table

/-!
# The local index of the data service

The data service knows which objects this process holds.  A write path announces an object before it is
written and reports how that ended; between the two the entry is `INCOMPLETE`.  An entry that is already
`COMPLETE` is kept when a new write of the object starts.

* `LocalObjectInfo`, `LocalIdx` — the entries; `onWriteStarted`, `onWriteCompleted`, `onWriteFailed`,
  `onObjectFlushed`, `removeLocalIndex`, `hasLocalObject`, `findChunkedLocation` — the operations;
* `Write`, `Write.calls` — the write paths with their exits, and the calls each makes;
* `World`, `step` — write attempts that run at the same time, call by call;
* `isComplete_of_run` — a complete object stays complete as long as no attempt on it fails;
* `failed_attempts_keep_iff` — attempts that end in `on_write_failed` leave complete objects as they were
  **iff** there are none on complete objects: the failure erases the entry that the start has kept.
-/

namespace Fly.Storage

open Fly.Lib Table Option

inductive TaskErrorType where
  /-- stands for no error -/
  | unknown
  | executionError
  | writeToFrozenDb
  | writeRegistrationFailed
  | writeRegistrationTimeout
  | writeProvenanceMismatch
  | writeDuplicateSkipped
  | dbAlreadyFrozen
  deriving DecidableEq, Repr

/-- `FAILED` is only seen by readers that hold on to an entry which is gone from the index. -/
inductive CompletionState where
  | incomplete
  | complete
  | failed
  deriving DecidableEq, Repr

structure LocalObjectInfo (ε : Type) where
  entries : List ε := []
  completionState : CompletionState := .incomplete
  flushed : Bool := false

/-- The objects of this process.  A key is a database path with a short name. -/
abbrev LocalIdx (κ ε : Type) := Table κ (LocalObjectInfo ε)

namespace LocalIdx

variable {κ ε : Type} [DecidableEq κ] (idx : LocalIdx κ ε) (k : κ)

def onWriteStarted : LocalIdx κ ε :=
  match idx.lookup k with
  | some info => if info.completionState = .complete then idx else idx.insert k {}
  | none => idx.insert k {}

/-- Ignored if the object was not announced. -/
def onWriteCompleted (entries : List ε) : LocalIdx κ ε :=
  modify idx k fun info => { info with entries, completionState := .complete }

def onWriteFailed : LocalIdx κ ε := idx.erase k

def onObjectFlushed : LocalIdx κ ε :=
  modify idx k fun info => { info with flushed := true }

def removeLocalIndex : LocalIdx κ ε := idx.erase k

def hasLocalObject : Bool :=
  match idx.lookup k with
  | some info => info.completionState = .complete
  | none => false

/-- Where a local reader finds the object: the last entry, once the object is complete. -/
def findChunkedLocation : Option ε :=
  match idx.lookup k with
  | some info => if info.completionState = .complete then info.entries.getLast? else none
  | none => none

/-- The object is complete, with these entries. -/
def CompleteWith (entries : List ε) : Prop :=
  ∃ info, idx.lookup k = some info ∧ info.completionState = .complete ∧ info.entries = entries

/-- The entries of an object, if it is complete. -/
def completeEntries : Option (List ε) :=
  match idx.lookup k with
  | some info => if info.completionState = .complete then some info.entries else none
  | none => none

end LocalIdx

/-! ### The write paths -/

inductive Call (ε : Type) where
  | onWriteStarted
  | onWriteCompleted (entries : List ε)
  | onWriteFailed
  | onObjectFlushed
  deriving DecidableEq

/-- What becomes of a write that is handed to the write-back queue; `entries` are what the writer has of
the object then. -/
inductive WriteBack (ε : Type) where
  | done (entries : Option (List ε))
  | failed
  /-- the queue was cleared before the write was its turn -/
  | dropped

inductive StreamOutcome (ε : Type) where
  /-- the stream was refused, or never committed -/
  | notCommitted
  | flushFailed
  | registered (verdict : TaskErrorType) (entries : Option (List ε))

inductive BackupOutcome (ε : Type) where
  | notVisible
  | writerClosed
  | sourceFailed
  | registered (verdict : TaskErrorType) (entries : Option (List ε))

/-- A write attempt, with how it goes. -/
inductive Write (ε : Type) where
  | commitWrite (verdict : TaskErrorType) (writeBack : WriteBack ε)
  | openWriteStream (outcome : StreamOutcome ε)
  | backupObject (outcome : BackupOutcome ε)

namespace Write

variable {ε : Type}

def completion (entries : Option (List ε)) : List (Call ε) :=
  match entries with
  | some entries => [.onWriteCompleted entries, .onObjectFlushed]
  | none => [.onObjectFlushed]

/-- The verdicts that `commit_write` takes for a rejection. -/
def rejections : List TaskErrorType :=
  [.writeDuplicateSkipped, .writeProvenanceMismatch, .writeRegistrationFailed,
    .writeRegistrationTimeout, .writeToFrozenDb]

def calls : Write ε → List (Call ε)
  | .commitWrite verdict writeBack =>
    .onWriteStarted :: if verdict ∈ rejections then [.onWriteFailed]
      else
        match writeBack with
        | .done entries => completion entries
        | .failed => [.onWriteFailed]
        | .dropped => []
  | .openWriteStream .notCommitted => []
  -- the object has not been announced yet
  | .openWriteStream .flushFailed => [.onWriteFailed]
  | .openWriteStream (.registered verdict entries) =>
    .onWriteStarted :: if verdict = .unknown then completion entries else [.onWriteFailed]
  | .backupObject .notVisible => []
  -- nothing is reported on this exit
  | .backupObject .writerClosed => [.onWriteStarted]
  | .backupObject .sourceFailed => [.onWriteStarted, .onWriteFailed]
  | .backupObject (.registered verdict entries) =>
    .onWriteStarted :: if verdict = .unknown then completion entries else [.onWriteFailed]

end Write

/-! ### Attempts at the same time -/

namespace LocalIdx

variable {κ ε : Type} [DecidableEq κ]

def perform (idx : LocalIdx κ ε) (k : κ) : Call ε → LocalIdx κ ε
  | .onWriteStarted => idx.onWriteStarted k
  | .onWriteCompleted entries => idx.onWriteCompleted k entries
  | .onWriteFailed => idx.onWriteFailed k
  | .onObjectFlushed => idx.onObjectFlushed k

/-- An attempt in progress: its object, the entries the object had when it began, if it was complete, and
the calls that are still to come. -/
structure Attempt (κ ε : Type) where
  object : κ
  before : Option (List ε)
  calls : List (Call ε)

structure World (κ ε : Type) where
  index : LocalIdx κ ε
  attempts : Table ℕ (Attempt κ ε)

/-- An attempt begins, under an unused number, or one of them makes its next call. -/
inductive Step (κ ε : Type) where
  | begin (id : ℕ) (object : κ) (write : Write ε)
  | next (id : ℕ)

def step (w : World κ ε) : Step κ ε → Option (World κ ε)
  | .begin id object write =>
    match w.attempts.lookup id with
    | none =>
      some { w with
        attempts := w.attempts.insert id ⟨object, w.index.completeEntries object, write.calls⟩ }
    | some _ => none
  | .next id =>
    match w.attempts.lookup id with
    | some ⟨object, before, call :: calls⟩ =>
      some ⟨w.index.perform object call, w.attempts.insert id ⟨object, before, calls⟩⟩
    | _ => none

def start (index : LocalIdx κ ε) : World κ ε := ⟨index, ∅⟩

/-- The next step of the attempt ends it, with a failure; the object was complete when it began. -/
def EndsFailed (w : World κ ε) (id : ℕ) (k : κ) (entries : List ε) : Prop :=
  w.attempts.lookup id = some ⟨k, some entries, [.onWriteFailed]⟩

/-- The object is complete with these entries, and a local reader finds the last of them. -/
def Intact (idx : LocalIdx κ ε) (k : κ) (entries : List ε) : Prop :=
  idx.CompleteWith k entries ∧ idx.findChunkedLocation k = entries.getLast?

/-! ### What a call does to an object -/

theorem not_completeWith_onWriteFailed (idx : LocalIdx κ ε) (k : κ) (entries : List ε) :
    ¬(idx.onWriteFailed k).CompleteWith k entries := by
  rintro ⟨info, hinfo, -⟩
  rw [onWriteFailed, lookup_erase_eq, if_pos rfl] at hinfo
  cases hinfo

variable {k object : κ} {idx : LocalIdx κ ε} {w w' : World κ ε}

/-- The start of a write leaves an entry, complete just as before. -/
theorem completeWith_onWriteStarted_iff {entries : List ε} :
    (idx.onWriteStarted k).CompleteWith k entries ↔ idx.CompleteWith k entries := by
  have hnew : ∀ idx : LocalIdx κ ε, ¬CompleteWith (idx.insert k {}) k entries := by
    rintro idx ⟨info, hinfo, hcomplete, -⟩
    rw [lookup_insert_eq, if_pos rfl, some.injEq] at hinfo
    subst hinfo
    cases hcomplete
  unfold onWriteStarted
  cases hinfo : idx.lookup k with
  | none =>
    refine iff_of_false (hnew idx) ?_
    rintro ⟨info, hsome, -⟩
    rw [hinfo] at hsome
    cases hsome
  | some info =>
    dsimp only
    split
    · rfl
    rename_i hincomplete
    refine iff_of_false (hnew idx) ?_
    rintro ⟨info', hsome, hcomplete, -⟩
    rw [hinfo, some.injEq] at hsome
    exact hincomplete (hsome ▸ hcomplete)

theorem exists_lookup_onWriteStarted (idx : LocalIdx κ ε) (k : κ) :
    ∃ info, (idx.onWriteStarted k).lookup k = some info := by
  have hnew : (idx.insert k {} : LocalIdx κ ε).lookup k = some {} := AList.lookup_insert _
  unfold onWriteStarted
  cases hinfo : idx.lookup k with
  | none => exact ⟨_, hnew⟩
  | some info =>
    dsimp only
    split
    · exact ⟨info, hinfo⟩
    · exact ⟨_, hnew⟩

/-- Calls for other objects change nothing. -/
theorem lookup_perform_of_ne (hne : k ≠ object) (call : Call ε) :
    (idx.perform object call).lookup k = idx.lookup k := by
  cases call with
  | onWriteStarted =>
    show (idx.onWriteStarted object).lookup k = _
    unfold onWriteStarted
    split
    · split
      · rfl
      · rw [lookup_insert_eq, if_neg hne]
    · rw [lookup_insert_eq, if_neg hne]
  | onWriteCompleted entries | onObjectFlushed =>
    show (modify idx object _).lookup k = _
    rw [lookup_modify, if_neg hne]
  | onWriteFailed =>
    show (idx.erase object).lookup k = _
    rw [lookup_erase_eq, if_neg hne]

/-- Only a failure takes a complete object away. -/
theorem isComplete_perform {call : Call ε}
    (hcall : object = k → call ≠ .onWriteFailed) (h : ∃ entries, idx.CompleteWith k entries) :
    ∃ entries, (idx.perform object call).CompleteWith k entries := by
  obtain ⟨entries, info, hinfo, hcomplete, hentries⟩ := h
  by_cases hk : k = object
  · subst hk
    cases call with
    | onWriteStarted =>
      refine ⟨entries, info, ?_, hcomplete, hentries⟩
      show (idx.onWriteStarted k).lookup k = _
      rw [onWriteStarted, hinfo]
      dsimp only
      rw [if_pos hcomplete, hinfo]
    | onWriteCompleted new =>
      refine ⟨new, { info with entries := new, completionState := .complete }, ?_, rfl, rfl⟩
      show (modify idx k _).lookup k = _
      rw [lookup_modify, if_pos rfl, hinfo]
      rfl
    | onWriteFailed => exact (hcall rfl rfl).elim
    | onObjectFlushed =>
      refine ⟨entries, { info with flushed := true }, ?_, hcomplete, hentries⟩
      show (modify idx k _).lookup k = _
      rw [lookup_modify, if_pos rfl, hinfo]
      rfl
  · refine ⟨entries, info, ?_, hcomplete, hentries⟩
    rw [lookup_perform_of_ne hk, hinfo]

/-! ### Runs -/

/-- The call that a step makes, with its object. -/
def stepCall (w : World κ ε) : Step κ ε → Option (κ × Call ε)
  | .begin .. => none
  | .next id =>
    match w.attempts.lookup id with
    | some ⟨object, _, call :: _⟩ => some (object, call)
    | _ => none

/-- What a step can do: announce an attempt, or perform the call at the head of one. -/
theorem step_cases {s : Step κ ε} (h : step w s = some w') :
    (∃ id object write, s = .begin id object write ∧ w'.index = w.index) ∨
      ∃ id object before call calls, s = .next id ∧
        w.attempts.lookup id = some ⟨object, before, call :: calls⟩ ∧
        w'.index = w.index.perform object call := by
  cases s with
  | begin id object write =>
    rw [step] at h
    split at h
    · cases h
      exact .inl ⟨id, object, write, rfl, rfl⟩
    · cases h
  | next id =>
    rw [step] at h
    split at h
    · next object before call calls hlookup =>
      cases h
      exact .inr ⟨id, object, before, call, calls, rfl, hlookup, rfl⟩
    · cases h

/-- **A complete object stays complete as long as no attempt on it fails.** -/
theorem isComplete_of_run {steps : List (Step κ ε)}
    (hrun : run step w steps = some w') (hcomplete : ∃ entries, w.index.CompleteWith k entries)
    (hnofail : ∀ pre s post u, steps = pre ++ s :: post → run step w pre = some u →
      stepCall u s ≠ some (k, .onWriteFailed)) :
    ∃ entries, w'.index.CompleteWith k entries := by
  induction steps generalizing w with
  | nil =>
    rw [run_nil, some.injEq] at hrun
    exact hrun ▸ hcomplete
  | cons s steps ih =>
    obtain ⟨u, hu, hrun⟩ := bind_eq_some_iff.mp hrun
    refine ih hrun ?_ fun pre s' post v hsplit hv => ?_
    · rcases step_cases hu with ⟨id, object, write, rfl, hindex⟩ |
        ⟨id, object, before, call, calls, rfl, hlookup, hindex⟩
      · rw [hindex]
        exact hcomplete
      · rw [hindex]
        refine isComplete_perform (fun hobject hcall => ?_) hcomplete
        refine hnofail [] (.next id) steps w rfl rfl ?_
        rw [stepCall, hlookup, hobject, hcall]
    · exact hnofail (s :: pre) s' post v (by rw [hsplit]; rfl) (by rw [run_cons, hu]; exact hv)

/-- The write of another object fails. -/
theorem isComplete_of_run_other : ∃ w : World ℕ ℕ,
    run step (start ((∅ : LocalIdx ℕ ℕ).insert 5 ⟨[7], .complete, true⟩))
      [.begin 0 6 (.commitWrite .unknown .failed), .next 0, .next 0] = some w ∧
    w.index.hasLocalObject 6 = false ∧ ∃ entries, w.index.CompleteWith 5 entries :=
  exists_and_of_decide (by decide) fun _ hrun _ =>
    isComplete_of_run hrun ⟨[7], _, rfl, rfl, rfl⟩ fun _ _ _ _ hsplit hu => of_decide_eq_true
      (safe_of_checks (b := fun u s => decide (stepCall u s ≠ some (5, .onWriteFailed))) (by decide)
        hsplit hu)

/-- **Attempts that end in a failure leave the complete objects intact exactly when there is none of them
on a complete object**, for any attempts in any order, from any index. -/
theorem failed_attempts_keep_iff (index : LocalIdx κ ε) (steps : List (Step κ ε)) :
    (∀ pre id post w w' k entries, steps = pre ++ .next id :: post →
        run step (start index) pre = some w → step w (.next id) = some w' →
        EndsFailed w id k entries → w'.index.Intact k entries) ↔
      ∀ pre id post w k entries, steps = pre ++ .next id :: post →
        run step (start index) pre = some w → ¬EndsFailed w id k entries := by
  constructor
  · intro h pre id post w k entries hsplit hrun hends
    have hstep : step w (.next id) = some ⟨w.index.onWriteFailed k,
        w.attempts.insert id ⟨k, some entries, []⟩⟩ := by
      rw [step, show w.attempts.lookup id = _ from hends]
      rfl
    have hintact := h pre id post w _ k entries hsplit hrun hstep hends
    exact not_completeWith_onWriteFailed w.index k entries hintact.1
  · intro h pre id post w w' k entries hsplit hrun _ hends
    exact (h pre id post w k entries hsplit hrun hends).elim

/-- A completed object, then a second write of it that the master refuses: the object is gone. -/
theorem refused_write_erases_complete : let steps : List (Step ℕ ℕ) :=
      [.begin 0 5 (.commitWrite .unknown (.done (some [7]))), .next 0, .next 0, .next 0,
        .begin 1 5 (.commitWrite .writeProvenanceMismatch .dropped), .next 1]
    ∃ w w', run step (start ∅) steps = some w ∧ EndsFailed w 1 5 [7] ∧
      w.index.findChunkedLocation 5 = some 7 ∧ step w (.next 1) = some w' ∧
      w'.index.hasLocalObject 5 = false ∧ ¬w'.index.Intact 5 [7] :=
  ⟨_, _, rfl, rfl, rfl, rfl, rfl, fun h => not_completeWith_onWriteFailed _ 5 [7] h.1⟩

end LocalIdx

end Fly.Storage
