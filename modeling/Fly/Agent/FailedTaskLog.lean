import Mathlib.Data.Rat.Denumerable
import Fly.Agent.FailedTasks

/-!
# The log of failed tasks (`agent/cpp/master_agent.cpp`)

Records are appended to `failed_tasks.bin` as a length of eight bytes and the encoded record, over the
lifetimes of many processes; a crash leaves the front of such a frame at the end of the file.  Nothing in
the file marks where a frame begins.

* `FailedLog.step` — an append, of which only the first bytes may reach the file, and
  `remove_persisted_task`, which reads, filters and writes the file anew;
* `Torn` — whole frames, and a rest at which reading stops;
* `reads_back` — **the file reads back as the records whose append was completed, less those removed, as
  long as no append follows one that was cut short**, and the task removed is known to the master.
-/

namespace Fly.Agent

open Fly.Lib Fly.Task List Nat

/-- An encoding of the records, as the vendored library is assumed to provide it. -/
structure RecordCodec where
  encode : FailedTaskRecord → Bytes
  decode : Bytes → Option FailedTaskRecord
  decode_encode : ∀ r, decode (encode r) = some r
  encode_ne_nil : ∀ r, encode r ≠ []

namespace RecordCodec

variable (c : RecordCodec)

def frame (r : FailedTaskRecord) : Bytes := toLE 8 (c.encode r).length ++ c.encode r

/-- `append_failed_record`, of which the first `written` bytes reach the file. -/
def appendFailedRecord (file : Bytes) (r : FailedTaskRecord) (written : ℕ) : Bytes :=
  file ++ (c.frame r).take written

def rewriteFailedRecords (records : List FailedTaskRecord) : Bytes :=
  records.foldl (fun file r => c.appendFailedRecord file r (c.frame r).length) []

/-- `remove_persisted_task`; the file of a task without metadata is not looked for. -/
def removePersistedTask (limit : ℕ) (known : Bool) (task : ℕ) (file : Bytes) : Bytes :=
  if known then
    match readFailedRecords limit c.decode file with
    | none => file
    | some records =>
      let kept := records.filter fun r => r.taskId ≠ task
      if kept.length = records.length then file else c.rewriteFailedRecords kept
  else file

end RecordCodec

open RecordCodec

inductive LogOp where
  | append (r : FailedTaskRecord) (written : ℕ)
  | remove (known : Bool) (task : ℕ)

/-- The file, and the records that should be in it. -/
structure FailedLog where
  file : Bytes := []
  records : List FailedTaskRecord := []

namespace FailedLog

variable {c : RecordCodec} {limit : ℕ}

def step (c : RecordCodec) (limit : ℕ) (s : FailedLog) : LogOp → FailedLog
  | .append r written =>
    ⟨c.appendFailedRecord s.file r written,
      if (c.frame r).length ≤ written then s.records ++ [r] else s.records⟩
  | .remove known task =>
    ⟨c.removePersistedTask limit known task s.file, s.records.filter fun r => r.taskId ≠ task⟩

/-- An append finds whole frames only, and its record can be allocated again; a removal finds the
metadata of its task, or nothing to remove. -/
def Safe (c : RecordCodec) (limit : ℕ) (s : FailedLog) : LogOp → Prop
  | .append r _ => s.file = s.records.flatMap c.frame ∧ (c.encode r).length ≤ limit
  | .remove known task => known = true ∨ ∀ r ∈ s.records, r.taskId ≠ task

/-- Whole frames that can be allocated, and a rest at which reading stops. -/
structure Torn (c : RecordCodec) (limit : ℕ) (s : FailedLog) : Prop where
  fits : ∀ r ∈ s.records, (c.encode r).length ≤ limit
  file : ∃ rest, (∀ fuel, readBodies limit fuel rest = some []) ∧ s.file = s.records.flatMap c.frame ++ rest

/-! ### Reading -/

theorem length_frame (r : FailedTaskRecord) : (c.frame r).length = 8 + (c.encode r).length := by
  rw [frame, length_append, length_toLE]

theorem length_pos (r : FailedTaskRecord) : 0 < (c.encode r).length := length_pos_iff.mpr (c.encode_ne_nil r)

theorem readBodies_nil (fuel : ℕ) : readBodies limit fuel [] = some [] := by
  cases fuel <;> rfl

theorem length_le_frames (records : List FailedTaskRecord) :
    records.length ≤ (records.flatMap c.frame).length := by
  induction records with
  | nil => exact le_refl 0
  | cons x records ih =>
    rw [flatMap_cons, length_append, length_frame, length_cons]
    omega

theorem rewriteFailedRecords_eq (records : List FailedTaskRecord) :
    c.rewriteFailedRecords records = records.flatMap c.frame := by
  have hfold : ∀ file, records.foldl (fun file r => c.appendFailedRecord file r (c.frame r).length) file =
      file ++ records.flatMap c.frame := by
    induction records with
    | nil => exact fun file => (append_nil file).symm
    | cons x records ih =>
      intro file
      rw [foldl_cons, ih, appendFailedRecord, take_length, flatMap_cons, append_assoc]
  exact hfold []

section

variable {r : FailedTaskRecord} {s : FailedLog} (hlimit : limit < 2 ^ 63)
include hlimit

/-- The length in front of a body. -/
theorem ofLE_frame (hfits : (c.encode r).length ≤ limit)
    (rest : Bytes) : ofLE ((toLE 8 (c.encode r).length ++ rest).take 8) = (c.encode r).length := by
  rw [take_left' (length_toLE 8 _)]
  exact ofLE_toLE_of_lt (by omega)

theorem readBodies_frame (hfits : (c.encode r).length ≤ limit)
    (fuel : ℕ) (rest : Bytes) : readBodies limit (fuel + 1) (c.frame r ++ rest) =
      (readBodies limit fuel rest).map (c.encode r :: ·) := by
  have hpos := length_pos (c := c) r
  rw [frame, append_assoc, readBodies]
  simp only [ofLE_frame hlimit hfits]
  rw [if_neg, if_neg (by omega), drop_left' (length_toLE 8 _), if_neg, take_left, drop_left]
  · rw [length_append]
    omega
  · rw [length_append, length_toLE]
    omega

/-- Reading stops at a frame that is not whole. -/
theorem readBodies_torn {n : ℕ}
    (hfits : (c.encode r).length ≤ limit) (hn : n < (c.frame r).length) (fuel : ℕ) :
    readBodies limit fuel ((c.frame r).take n) = some [] := by
  cases fuel with
  | zero => rfl
  | succ fuel =>
    have hlength := length_frame (c := c) r
    rw [readBodies]
    by_cases hshort : n < 8
    · exact if_pos (Or.inl (by rw [length_take]; omega))
    have hsize : ofLE (((c.frame r).take n).take 8) = (c.encode r).length := by
      rw [take_take, min_eq_left (by omega)]
      exact ofLE_frame hlimit hfits _
    have hpos := length_pos (c := c) r
    simp only [hsize]
    rw [if_neg (by rw [length_take]; omega), if_neg (by omega),
      if_pos (by rw [length_drop, length_take]; omega)]

theorem readBodies_frames {records : List FailedTaskRecord} {rest : Bytes} {fuel : ℕ}
    (hrecords : ∀ x ∈ records, (c.encode x).length ≤ limit)
    (hrest : ∀ fuel, readBodies limit fuel rest = some []) (hfuel : records.length ≤ fuel) :
    readBodies limit fuel (records.flatMap c.frame ++ rest) = some (records.map c.encode) := by
  induction records generalizing fuel with
  | nil => exact hrest fuel
  | cons x records ih =>
    obtain ⟨fuel, rfl⟩ := exists_eq_add_one_of_ne_zero (ne_zero_of_lt hfuel)
    rw [flatMap_cons, append_assoc, readBodies_frame hlimit (hrecords x mem_cons_self),
      ih (fun y hy => hrecords y (mem_cons_of_mem x hy)) (le_of_succ_le_succ hfuel)]
    rfl

/-- **A file with a torn end reads back as its whole records.** -/
theorem Torn.reads (h : Torn c limit s) :
    readFailedRecords limit c.decode s.file = some s.records := by
  obtain ⟨rest, hrest, hfile⟩ := h.file
  have hfuel : s.records.length ≤ s.file.length := by
    rw [hfile, length_append]
    exact le_add_right_of_le (length_le_frames s.records)
  have hbodies := readBodies_frames hlimit h.fits hrest hfuel
  have hdecode : c.decode ∘ c.encode = some := funext c.decode_encode
  rw [← hfile] at hbodies
  rw [readFailedRecords, hbodies, Option.map_some, filterMap_map, hdecode, filterMap_some]

/-! ### Writing -/

theorem Torn.append (h : Torn c limit s) (written : ℕ)
    (hfile : s.file = s.records.flatMap c.frame) (hfits : (c.encode r).length ≤ limit) :
    Torn c limit (s.step c limit (.append r written)) := by
  simp only [step, appendFailedRecord]
  by_cases hwhole : (c.frame r).length ≤ written
  · rw [if_pos hwhole, take_of_length_le hwhole]
    refine ⟨forall_mem_append.mpr ⟨h.fits, forall_mem_singleton.mpr hfits⟩, [], readBodies_nil, ?_⟩
    rw [hfile, flatMap_append, flatMap_singleton, append_nil]
  · rw [if_neg hwhole]
    exact ⟨h.fits, _, readBodies_torn hlimit hfits (Nat.lt_of_not_le hwhole), congrArg (· ++ _) hfile⟩

theorem Torn.remove {known : Bool} {task : ℕ} (h : Torn c limit s)
    (hknown : known = true ∨ ∀ r ∈ s.records, r.taskId ≠ task) :
    Torn c limit (s.step c limit (.remove known task)) := by
  -- a file that is left alone held no record of the task
  have hsame : (∀ r ∈ s.records, r.taskId ≠ task) →
      Torn c limit ⟨s.file, s.records.filter fun r => r.taskId ≠ task⟩ := by
    intro hnone
    rw [filter_eq_self.mpr fun r hr => decide_eq_true (hnone r hr)]
    exact h
  simp only [step, removePersistedTask, h.reads hlimit]
  split
  · split
    · next hlength =>
      exact hsame fun r hr => of_decide_eq_true (length_filter_eq_length_iff.mp hlength r hr)
    · refine ⟨fun r hr => h.fits r (mem_of_mem_filter hr), [], readBodies_nil, ?_⟩
      rw [rewriteFailedRecords_eq, append_nil]
  · next hnot => exact hsame (hknown.resolve_left hnot)

theorem Torn.step {op : LogOp} (h : Torn c limit s) (hsafe : Safe c limit s op) :
    Torn c limit (s.step c limit op) := by
  cases op with
  | append r written => exact h.append hlimit written hsafe.1 hsafe.2
  | remove known task => exact h.remove hlimit hsafe

end

/-- **The log reads back as what was completely written and not removed**, after every run of safe steps. -/
theorem reads_back (hlimit : limit < 2 ^ 63) {ops : List LogOp}
    (hsafe : ∀ pre op post, ops = pre ++ op :: post → Safe c limit (pre.foldl (step c limit) {}) op) :
    readFailedRecords limit c.decode (ops.foldl (step c limit) {}).file =
      some (ops.foldl (step c limit) {}).records := by
  have htorn : Torn c limit (ops.foldl (step c limit) {}) := by
    induction ops using List.reverseRecOn with
    | nil => exact ⟨forall_mem_nil _, [], readBodies_nil, rfl⟩
    | append_singleton ops op ih =>
      rw [foldl_append, foldl_cons, foldl_nil]
      refine (ih fun pre x post hsplit => hsafe pre x (post ++ [op]) ?_).step hlimit (hsafe ops op [] rfl)
      rw [hsplit, append_assoc, cons_append]
  exact htorn.reads hlimit

/-! ### Two runs -/

/-- Some codec stores a given record in one byte. -/
theorem exists_recordCodec (short : FailedTaskRecord) : ∃ c : RecordCodec, c.encode short = [0] := by
  have : Countable Ieee :=
    Function.Injective.countable (f := fun x : Ieee =>
      Ieee.casesOn (motive := fun _ => ℕ × ℚ) x (0, 0) (1, 0) (2, 0) fun q => (3, q)) fun a b h => by
        cases a <;> cases b <;> simp_all
  have : Countable TaskSubmissionSpec :=
    Function.Injective.countable (f := fun s : TaskSubmissionSpec => (s.name, s.moduleName, s.args, s.inputs,
      s.outputs, s.requiredCapabilities, s.attributeTimeout, s.priority, s.writeContextHash, s.vars,
      s.ownerDbPath)) fun a b h => by
        cases a
        cases b
        simpa using h
  have : Countable FailedTaskRecord :=
    Function.Injective.countable (f := fun r : FailedTaskRecord => (r.taskId, r.submission, r.errorMessage))
      fun a b h => by
        cases a
        cases b
        simpa using h
  obtain ⟨encode, decode, hdecode, hne, hshort⟩ := exists_byteCode short
  exact ⟨⟨encode, decode, hdecode, hne⟩, hshort⟩

/-- The record of task 7. -/
def recordSeven : FailedTaskRecord := { taskId := 7 }

theorem reads_back_tornEnd : ∃ c : RecordCodec,
    (List.foldl (step c 1000) {} [.append recordSeven 9, .append recordSeven 3]).records = [recordSeven] ∧
    readFailedRecords 1000 c.decode
      (List.foldl (step c 1000) {} [.append recordSeven 9, .append recordSeven 3]).file =
        some (List.foldl (step c 1000) {} [.append recordSeven 9, .append recordSeven 3]).records := by
  obtain ⟨c, hc⟩ := exists_recordCodec recordSeven
  have hframe : (c.frame recordSeven).length = 9 := by rw [length_frame, hc]; rfl
  refine ⟨c, by simp [step, hframe], reads_back (by decide) fun pre op post hsplit => ?_⟩
  rcases pre with _ | ⟨x, _ | ⟨y, pre⟩⟩
  · cases hsplit
    exact ⟨rfl, by rw [hc]; decide⟩
  · cases hsplit
    refine ⟨?_, by rw [hc]; decide⟩
    simp [step, hframe, appendFailedRecord]
  · simp at hsplit

/-- **A torn end swallows what is appended behind it**: one byte of the first append reaches the file, and
the record of the second, which was written to its end, is not read. -/
theorem torn_end_swallows : ∃ c : RecordCodec,
    (List.foldl (step c 1000) {} [.append recordSeven 1, .append recordSeven 9]).records = [recordSeven] ∧
    readFailedRecords 1000 c.decode
      (List.foldl (step c 1000) {} [.append recordSeven 1, .append recordSeven 9]).file = some [] := by
  obtain ⟨c, hc⟩ := exists_recordCodec recordSeven
  have hframe : c.frame recordSeven = [1, 0, 0, 0, 0, 0, 0, 0, 0] := by
    rw [frame, hc]
    decide
  refine ⟨c, by simp [step, hframe], ?_⟩
  simp only [List.foldl, step, appendFailedRecord, hframe]
  have hbodies : readBodies 1000 10 [1, 1, 0, 0, 0, 0, 0, 0, 0, 0] = some [] := by decide
  exact congrArg (Option.map _) hbodies

end FailedLog

end Fly.Agent
