import Fly.Lib.Bytes
import Fly.Lib.Table
import Fly.Storage.Database
import Fly.Task.TaskManager

/-!
# The records of failed tasks (`agent/cpp/master_agent.cpp`)

A failed task is appended to the file `failed_tasks.bin` of the database it belongs to, as a length of
eight bytes and the encoded record.  A restart reads the file, and goes on only if every record can be
submitted again: its arguments have the `__fly_kwargs__` section, and every database they name is loaded.
A database is known by its uid; the paths in a record are those of the time of its submission, and are
replaced by the current ones.

* `readFailedRecords` — the records of a file; `limit` is the longest string that can be allocated;
* `parseDbArg`, `parseDbArgUid` — the database references among the arguments;
* `rewriteRecord` — the replacement of the paths;
* `RestartInput.prepare` — what `restart_failed_tasks` does before the first submission: the records to be
  submitted, and the files afterwards;
* `prepare_cases` — either there is nothing to submit and no file changes, or the file is gone.

The codec of the records is a parameter: `none` is a body that it refuses.
-/

namespace Fly.Agent

open Fly.Lib Fly.Task Fly.Storage String

structure FailedTaskRecord where
  taskId : ℕ
  submission : TaskSubmissionSpec := {}
  errorMessage : String := ""
  deriving DecidableEq

/-! ### Reading the file -/

/-- The bodies at the front of the file, up to the first that is not whole.  The length is an `int64_t`;
`none` if a string of that length cannot be allocated. -/
def readBodies (limit : ℕ) : ℕ → Bytes → Option (List Bytes)
  | 0, _ => some []
  | fuel + 1, file =>
    let size := ofLE (file.take 8)
    if file.length < 8 ∨ size = 0 ∨ 2 ^ 63 ≤ size then some []
    else if limit < size then none
    else
      let rest := file.drop 8
      if rest.length < size then some []
      else (readBodies limit fuel (rest.drop size)).map (rest.take size :: ·)

/-- `read_failed_records`; a body that cannot be decoded is skipped. -/
def readFailedRecords (limit : ℕ) (decode : Bytes → Option FailedTaskRecord) (file : Bytes) :
    Option (List FailedTaskRecord) :=
  (readBodies limit file.length file).map (·.filterMap decode)

/-! ### Database references -/

def afterTag (tag s : String) : Option String :=
  if tag.toList.isPrefixOf s.toList then some (ofList (s.toList.drop tag.length)) else none

/-- The two sides of the first colon. -/
def splitColon (s : String) : Option (String × String) :=
  match s.toList.dropWhile (· ≠ ':') with
  | [] => none
  | _ :: rest => some (ofList (s.toList.takeWhile (· ≠ ':')), ofList rest)

/-- The parts between the first `n` colons, and the rest. -/
def colonParts : ℕ → String → List String
  | 0, s => [s]
  | n + 1, s =>
    match splitColon s with
    | none => [s]
    | some (part, rest) => part :: colonParts n rest

/-- `parse_db_arg`: the path of the database; empty if the argument names none. -/
def parseDbArg (arg : String) : String :=
  match afterTag "__fly_db__:" arg with
  | none =>
    match afterTag "__fly_db2__:" arg with
    | none => ""
    | some rest =>
      match splitColon rest with
      | none => rest
      | some (_, path) => path
  | some rest =>
    match colonParts 3 rest with
    | [_, _, path, _] => path
    | _ :: path :: _ => path
    | _ => ""

/-- `parse_db_arg_uid`: the uid and the path. -/
def parseDbArgUid (arg : String) : String × String :=
  match afterTag "__fly_db2__:" arg with
  | some rest => (splitColon rest).getD ("", "")
  | none =>
    let dbPath := parseDbArg arg
    if dbPath = "" then ("", "")
    else
      match colonParts 2 ((afterTag "__fly_db__:" arg).getD "") with
      | uid :: _ :: _ :: _ => (uid, dbPath)
      | _ => ("", dbPath)

/-- The submission as `submit_task` makes it: without an owner, the first database among the arguments
is the owner. -/
def effectiveSpec (spec : TaskSubmissionSpec) : TaskSubmissionSpec :=
  if spec.ownerDbPath = "" then
    { spec with ownerDbPath := ((spec.args.map parseDbArg).find? (· ≠ "")).getD "" }
  else spec

/-! ### Checking and rewriting the records -/

/-- The last argument is the section of keyword arguments. -/
def kwargsAware (r : FailedTaskRecord) : Bool :=
  match r.submission.args.getLast? with
  | none => false
  | some arg => (afterTag "__fly_kwargs__:" arg).isSome

/-- The databases that the arguments name. -/
def dbRefs (r : FailedTaskRecord) : List (String × String) :=
  (r.submission.args.map parseDbArgUid).filter fun ref => ref.2 ≠ ""

variable (dbUidIndex : Table String String)

/-- Where the database is now, if it is loaded. -/
def currentPath (uid : String) : Option String :=
  (dbUidIndex.lookup uid).filter (· ≠ "")

def resolvable (r : FailedTaskRecord) : Bool :=
  (dbRefs r).all fun ref => decide (ref.1 ≠ "") && (currentPath dbUidIndex ref.1).isSome

/-- `old_to_new`: the databases that have moved. -/
def oldToNew (records : List FailedTaskRecord) : Table String String :=
  (records.flatMap dbRefs).foldl (fun moved ref =>
    match currentPath dbUidIndex ref.1 with
    | some current => if current ≠ ref.2 then moved.insert ref.2 current else moved
    | none => moved) ∅

/-- `replace_prefix`: the full name of an object of a database that has moved. -/
def replacePrefix (moved : Table String String) (full : String) : String :=
  let name := splitFullName full
  if name.1 = "" then full
  else
    match moved.lookup name.1 with
    | some current => current ++ ":" ++ name.2
    | none => full

def rewriteArg (arg : String) : String :=
  let ref := parseDbArgUid arg
  if ref.2 = "" then arg
  else "__fly_db2__:" ++ ref.1 ++ ":" ++ (dbUidIndex.lookup ref.1).getD ""

def parentPath (path : String) : String :=
  match path.toList.reverse.dropWhile (· ≠ '/') with
  | [] => ""
  | slashes =>
    let front := slashes.dropWhile (· = '/')
    if front.isEmpty then "/" else ofList front.reverse

def rewriteRecord (dbUidIndex moved : Table String String) (filePath : String)
    (r : FailedTaskRecord) : FailedTaskRecord :=
  { r with submission := { r.submission with
      args := r.submission.args.map (rewriteArg dbUidIndex)
      inputs := r.submission.inputs.map (replacePrefix moved)
      vars := r.submission.vars.map (replacePrefix moved)
      outputs := r.submission.outputs.map (replacePrefix moved)
      ownerDbPath := if r.submission.ownerDbPath = "" then "" else parentPath filePath } }

/-! ### Up to the first submission -/

/-- What a call of `restart_failed_tasks` finds, the task handling apart. -/
structure RestartInput where
  limit : ℕ
  decode : Bytes → Option FailedTaskRecord
  dbUidIndex : Table String String := ∅
  files : Table String Bytes
  filePath : String

namespace RestartInput

variable (c : RestartInput)

/-- The records as they will be submitted; none of them if one has to be refused. -/
def accepted (records : List FailedTaskRecord) : List FailedTaskRecord :=
  if records.all kwargsAware && records.all (resolvable c.dbUidIndex) then
    records.map (rewriteRecord c.dbUidIndex (oldToNew c.dbUidIndex records) c.filePath)
  else []

/-- The records to be submitted, and the files afterwards; `none` if reading throws. -/
def prepare : Option (List FailedTaskRecord × Table String Bytes) :=
  match c.files.lookup c.filePath with
  | none => some ([], c.files)
  | some file =>
    (readFailedRecords c.limit c.decode file).map fun records =>
      (c.accepted records, if (c.accepted records).isEmpty then c.files else c.files.erase c.filePath)

/-- The submissions that the loop makes, one for each record. -/
def submissions (records : List FailedTaskRecord) : List (ℕ × TaskSubmissionSpec) :=
  records.map fun r => (r.taskId, effectiveSpec r.submission)

variable {c}

/-- **Nothing to submit and no file changed, or the file removed and every record of it to be
submitted.** -/
theorem prepare_cases {records : List FailedTaskRecord} {files : Table String Bytes}
    (h : c.prepare = some (records, files)) :
    (records = [] ∧ files = c.files) ∨ (records ≠ [] ∧ files = c.files.erase c.filePath ∧ ∃ file read,
        c.files.lookup c.filePath = some file ∧
        readFailedRecords c.limit c.decode file = some read ∧
        records = read.map (rewriteRecord c.dbUidIndex (oldToNew c.dbUidIndex read) c.filePath)) := by
  unfold prepare at h
  cases hfile : c.files.lookup c.filePath with
  | none =>
    rw [hfile] at h
    cases h
    exact .inl ⟨rfl, rfl⟩
  | some file =>
    rw [hfile] at h
    obtain ⟨read, hread, heq⟩ := Option.map_eq_some_iff.mp h
    obtain ⟨hrecords, hfiles⟩ := Prod.mk.inj heq
    rw [hrecords] at hfiles
    by_cases hempty : records = []
    · rw [if_pos (List.isEmpty_iff.mpr hempty)] at hfiles
      exact .inl ⟨hempty, hfiles.symm⟩
    rw [if_neg (by simpa using hempty)] at hfiles
    refine .inr ⟨hempty, hfiles.symm, file, read, rfl, hread, ?_⟩
    unfold accepted at hrecords
    split at hrecords
    · exact hrecords.symm
    · exact absurd hrecords.symm hempty

end RestartInput

end Fly.Agent
