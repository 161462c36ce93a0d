import Fly.Lib.Dataflow
import Fly.Lib.Text

/-!
# MapReduce jobs

`MapReduceJob` submits its four stages (partition, process, merge, finalize) and a cleanup as tasks that
know each other by the names of the objects they write and declare.  This file is the planning code
(`MapReduceJob.run`, `Job.tasks`) and the bodies of the tasks, over the tasks of `Fly.Lib.Dataflow`.

Python values are the elements of a type `V`.  The functions the user hands in are functions on it.
-/

namespace Fly.MapReduce

open Fly.Lib Fly.Lib.Dataflow List Nat

abbrev Name := Text

/-! ### The names of a run -/

variable {V : Type} (jobId : Text)

/-- `__mr__<job_id>__`, the head of every name a run makes up. -/
def mark : Name := "__mr__".toList ++ (jobId ++ "__".toList)

def partKey (i : ℕ) : Name := mark jobId ++ ("part__".toList ++ toDigits 10 i)

def placeholderKey : Name := mark jobId ++ "part__placeholder".toList

def procKey (i : ℕ) : Name := mark jobId ++ ("proc__".toList ++ toDigits 10 i)

def mergeKey (stage mergeId : ℕ) : Name :=
  mark jobId ++ ("merge__s".toList ++ (toDigits 10 stage ++ ("__".toList ++ toDigits 10 mergeId)))

def mergedKey : Name := mark jobId ++ "merged".toList

def partKeys (n : ℕ) : List Name := (range n).map (partKey jobId)

def procKeys (n : ℕ) : List Name := (range n).map (procKey jobId)

/-! ### Jobs -/

inductive MergeType where
  | summary
  | full
  deriving DecidableEq

/-- A `MapReduceJob` as the setters leave it. -/
structure MapReduceJob (V : Type) where
  outputName : Name
  keepIntermediate : Bool := false
  partitionFn : Option (V → List V) := none
  prePartitionedNames : Option (List Name) := none
  processFn : Option (V → V) := none
  mergeFn : Option (V → V → V) := none
  mergeType : MergeType := .summary
  finalizeFn : Option (V → V) := none

/-- Where the partitions come from. -/
inductive Source (V : Type) where
  | partitioner (fn : V → List V) (data : V)
  | prePartitioned (names : List Name)

/-- A job that has everything it needs, and its id. -/
structure Job (V : Type) where
  jobId : Text
  source : Source V
  process : V → V
  merge : V → V → V
  mergeType : MergeType
  finalize : Option (V → V)
  outputName : Name
  keepIntermediate : Bool

inductive RunError where
  /-- `ValueError` with its text -/
  | value (text : String)
  /-- `IndexError`: there are no partitions -/
  | index

/-- The checks at the head of `run`. -/
def MapReduceJob.job (mr : MapReduceJob V) (jobId : Text) (inputData : Option V) : Except RunError (Job V) :=
  match mr.mergeFn with
  | none => .error (.value "Merger must be set via set_merger()")
  | some merge =>
    match mr.processFn with
    | none => .error (.value "Processor must be set via set_processor()")
    | some process =>
      let withSource (source : Source V) : Job V :=
        ⟨jobId, source, process, merge, mr.mergeType, mr.finalizeFn, mr.outputName, mr.keepIntermediate⟩
      match mr.prePartitionedNames with
      | some names => .ok (withSource (.prePartitioned names))
      | none =>
        match inputData with
        | none => .error (.value "input_data required when no pre_partitioned names set")
        | some data =>
          match mr.partitionFn with
          | none =>
            .error (.value "Partitioner must be set via set_partitioner() or use set_pre_partitioned()")
          | some fn => .ok (withSource (.partitioner fn data))

/-! ### The bodies of the tasks -/

/-- `merged = items[0]`, then the others one by one. -/
def fold1 (merge : V → V → V) : List V → Option V
  | [] => none
  | item :: items => some (items.foldl merge item)

def partitionTask (fn : V → List V) (data : V) : Task Name V :=
  ⟨[], .writeAll ((partKeys jobId (fn data).length).zip (fn data))⟩

def processTask (process : V → V) (partId : ℕ) (partitionKey : Name) : Task Name V :=
  ⟨[partitionKey], .read partitionKey fun data => .write (procKey jobId partId) (process data) .done⟩

/-- The end of both merge tasks. -/
def mergeInto (merge : V → V → V) (key : Name) (items : List V) : Prog Name V :=
  match fold1 merge items with
  | none => .fail
  | some merged => .write key merged .done

def summaryMergeTask (merge : V → V → V) (stage mergeId : ℕ) (inputKeys : List Name) : Task Name V :=
  ⟨inputKeys, .readAll inputKeys (mergeInto merge (mergeKey jobId stage mergeId))⟩

def fullMergeTask (merge : V → V → V) (inputKeys : List Name) (outputName : Name) : Task Name V :=
  ⟨inputKeys, .readAll inputKeys (mergeInto merge outputName)⟩

def finalizeTask (finalize : V → V) (outputName mergeOutputKey : Name) : Task Name V :=
  ⟨[mergeOutputKey], .read mergeOutputKey fun merged => .write outputName (finalize merged) .done⟩

def copyToOutput (srcKey dstKey : Name) : Task Name V :=
  ⟨[srcKey], .read srcKey fun data => .write dstKey data .done⟩

/-- The removals are made with `missing_ok`. -/
def cleanupTask (intermediateKeys : List Name) (outputName : Name) : Task Name V :=
  ⟨[outputName], .removeAll intermediateKeys⟩

/-! ### The plan -/

/-- `keys[start:start + fan_in]` for the `b`-th value of `start`. -/
def batch {α : Type} (fanIn : ℕ) (keys : List α) (b : ℕ) : List α := (keys.drop (b * fanIn)).take fanIn

/-- The number of values of `start` in `range(0, len, fan_in)`. -/
def batchCount (fanIn len : ℕ) : ℕ := (len + fanIn - 1) / fanIn

/-- The `while` loop of `_run_summary_merge` from a stage on: the tasks it submits and the keys it ends
with.  Every stage leaves fewer keys, so the number of keys is enough fuel (`exists_summaryValues`). -/
def summaryStages (jobId : Text) (merge : V → V → V) (fanIn : ℕ) :
    ℕ → ℕ → List Name → List (Task Name V) × List Name
  | 0, _, keys => ([], keys)
  | fuel + 1, stage, keys =>
    if 1 < keys.length then
      let count := batchCount fanIn keys.length
      let rest := summaryStages jobId merge fanIn fuel (stage + 1) ((range count).map (mergeKey jobId stage))
      ((range count).map (fun b => summaryMergeTask jobId merge stage b (batch fanIn keys b)) ++ rest.1,
        rest.2)
    else ([], keys)

namespace Job

variable (job : Job V)

/-- `_num_partitions`; with a partitioner, of the dry run. -/
def numPartitions : ℕ :=
  match job.source with
  | .partitioner fn data => (fn data).length
  | .prePartitioned names => names.length

def partitionKeys : List Name :=
  match job.source with
  | .partitioner _ _ => partKeys job.jobId job.numPartitions
  | .prePartitioned names => names

def partitionTasks : List (Task Name V) :=
  match job.source with
  | .partitioner fn data => [partitionTask job.jobId fn data]
  | .prePartitioned _ => []

def processTasks : List (Task Name V) :=
  (range job.numPartitions).map fun i =>
    processTask job.jobId job.process i (job.partitionKeys[i]?.getD [])

def processedKeys : List Name := procKeys job.jobId job.numPartitions

/-- The tasks of the merge and the key of its result. -/
def runMerge : List (Task Name V) × Option Name :=
  match job.mergeType with
  | .summary =>
    let stages := summaryStages job.jobId job.merge (min job.numPartitions 8) job.numPartitions 0
      job.processedKeys
    (stages.1, stages.2.head?.or job.processedKeys.head?)
  | .full => ([fullMergeTask job.merge job.processedKeys (mergedKey job.jobId)], some (mergedKey job.jobId))

def finalTask (mergeOutputKey : Name) : Task Name V :=
  match job.finalize with
  | some finalize => finalizeTask finalize job.outputName mergeOutputKey
  | none => copyToOutput mergeOutputKey job.outputName

/-- `_intermediate_keys` at the end of `run`. -/
def intermediateKeys (mergeOutputKey : Name) : List Name :=
  (match job.source with
    | .partitioner _ _ => job.partitionKeys
    | .prePartitioned names => names.map fun _ => placeholderKey job.jobId) ++
    (job.processedKeys ++ [mergeOutputKey])

/-- The tasks in the order in which `run` submits them. -/
def tasks : Except RunError (List (Task Name V)) :=
  match job.runMerge with
  | (_, none) => .error .index
  | (mergeTasks, some mergeOutputKey) =>
    .ok (job.partitionTasks ++ (job.processTasks ++ (mergeTasks ++ [job.finalTask mergeOutputKey])) ++
      if job.keepIntermediate then [] else [cleanupTask (job.intermediateKeys mergeOutputKey) job.outputName])

end Job

def MapReduceJob.run (mr : MapReduceJob V) (jobId : Text) (inputData : Option V) :
    Except RunError (List (Task Name V)) :=
  (mr.job jobId inputData).bind Job.tasks

theorem MapReduceJob.run_of_job {mr : MapReduceJob V} {jobId : Text} {inputData : Option V} {job : Job V}
    (hjob : mr.job jobId inputData = .ok job) : mr.run jobId inputData = job.tasks := by
  rw [run, hjob]
  rfl

/-! ### The names are different -/

section Names

variable {jobId} {i j stage stage' : ℕ}

theorem toDigits_injective (h : toDigits 10 i = toDigits 10 j) : i = j := by
  rw [← ofDigitChars_ten_toDigits (n := i), h, ofDigitChars_ten_toDigits]

theorem underscore_notMem_toDigits (i : ℕ) : '_' ∉ toDigits 10 i :=
  fun h => absurd (isDigit_toDigits h) (by decide)

theorem mergeKey_injective (h : mergeKey jobId stage i = mergeKey jobId stage' j) :
    stage = stage' ∧ i = j := by
  have hdigits := congrArg (cut '_') (append_cancel_left (append_cancel_left h))
  rw [show "__".toList ++ toDigits 10 i = '_' :: '_' :: toDigits 10 i from rfl,
    show "__".toList ++ toDigits 10 j = '_' :: '_' :: toDigits 10 j from rfl,
    cut_append (underscore_notMem_toDigits stage), cut_append (underscore_notMem_toDigits stage'),
    Option.some.injEq, Prod.mk.injEq, cons.injEq] at hdigits
  exact ⟨toDigits_injective hdigits.1, toDigits_injective hdigits.2.2⟩

/-- Two names of a run differ if they differ in the letters behind the mark. -/
theorem mark_append_ne {s t : Text} (h : s.take 5 ≠ t.take 5) : mark jobId ++ s ≠ mark jobId ++ t :=
  fun heq => h (congrArg (take 5) (append_cancel_left heq))

theorem procKey_ne_merge (i : ℕ) (s : Text) : procKey jobId i ≠ mark jobId ++ ("merge".toList ++ s) :=
  mark_append_ne (show "proc_".toList ≠ "merge".toList by decide)

theorem part_ne_merge (s t : Text) :
    mark jobId ++ ("part__".toList ++ s) ≠ mark jobId ++ ("merge".toList ++ t) :=
  mark_append_ne (show "part_".toList ≠ "merge".toList by decide)

/-- The names of a run begin with its mark. -/
theorem startsWith_mark (jobId s : Text) : mark jobId <+: mark jobId ++ s := prefix_append _ _

end Names

end Fly.MapReduce
