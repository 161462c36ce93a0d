import Fly.Lib.Run
import Fly.Task.TaskManager

/-!
# The two views of the task table (`task/cpp/task_manager.cpp`)

`TaskManager` keeps its buckets and the index of statuses in agreement by construction.  The code keeps
two separate containers, and each method updates them on its own: a record is extracted from one bucket
and inserted into another, and the index is written afterwards.  Here the containers are plain tables,
and the agreement is what has to be proved.

* `TaskTables.step` — the methods, on the plain tables;
* `Agrees` — a bucket holds exactly the tasks that the index names for it, marked with its status, so the
  tables are a `TaskManager`;
* `Goes` — what a call may do to the records and which tasks it may forget;
* `tables_represent` — **every run keeps the agreement**, and every call forgets finished tasks only, the
  ones that ended first.
-/

namespace Fly.Task

open Fly.Lib List AList Function Option Table

/-- The methods that change the record of a known task. -/
inductive TaskCall where
  | updateTaskStatus (nowMs : ℕ) (status : TaskStatus)
  | setError (error : String)
  | setAssignedWorker (worker : ℕ)
  | setTimestamps (completed : ℕ)
  | setWriteContextHash (hash : String)
  | failTask (nowMs : ℕ) (error : String)
  | assignTask (worker : ℕ)
  | unassignTask

/-- What the method writes into the record of a task of status `old`. -/
def TaskCall.write (old : TaskStatus) (info : TaskMetadata) : TaskCall → TaskMetadata
  | updateTaskStatus nowMs status =>
    if old ≠ status ∧ status.terminal then { info with completedAt := nowMs } else info
  | setError error => { info with errorMessage := error }
  | setAssignedWorker worker | assignTask worker => { info with assignedWorkerId := worker }
  | setTimestamps completed => if completed ≠ 0 then { info with completedAt := completed } else info
  | setWriteContextHash hash =>
    { info with submission := { info.submission with writeContextHash := hash } }
  | failTask nowMs error =>
    if old = .failed then { info with errorMessage := error }
    else { info with errorMessage := error, completedAt := nowMs }
  | unassignTask => { info with assignedWorkerId := 0 }

/-- The status the method moves the task to. -/
def TaskCall.target (old : TaskStatus) : TaskCall → TaskStatus
  | updateTaskStatus _ status => status
  | failTask _ _ => .failed
  | assignTask _ => .running
  | unassignTask => .pending
  | _ => old

inductive TableOp where
  | createTask (id : ℕ) (spec : TaskSubmissionSpec)
  | call (id : ℕ) (c : TaskCall) (tie : ℕ → ℕ)
  | removeTask (id : ℕ)

structure TaskTables where
  buckets : TaskStatus → Table ℕ TaskMetadata := fun _ => ∅
  taskStatus : Table ℕ TaskStatus := ∅

namespace TaskTables

variable (t : TaskTables) (id : ℕ)

def setBucket (status : TaskStatus) (bucket : Table ℕ TaskMetadata) : TaskTables :=
  { t with buckets := update t.buckets status bucket }

/-- `insert` and `emplace` of the source: a key that is there keeps its record. -/
def insertNew (info : TaskMetadata) (bucket : Table ℕ TaskMetadata) : Table ℕ TaskMetadata :=
  if id ∈ bucket then bucket else bucket.insert id info

def moveTask (source target : TaskStatus) : TaskTables :=
  if source = target then t
  else
    match (t.buckets source).lookup id with
    | none => t
    | some info =>
      let out := t.setBucket source ((t.buckets source).erase id)
      { out.setBucket target (insertNew id { info with status := target } (out.buckets target)) with
        taskStatus := t.taskStatus.insert id target }

/-- Erase a task from the bucket that the index names, and from the index. -/
def removeTask : TaskTables :=
  match t.taskStatus.lookup id with
  | none => t
  | some status =>
    { t.setBucket status ((t.buckets status).erase id) with taskStatus := t.taskStatus.erase id }

/-- The finished tasks, as `maybe_cleanup_completed` collects them. -/
def finished : List (ℕ × TaskMetadata) :=
  pairs (t.buckets .completed) ++ pairs (t.buckets .failed)

def maybeCleanupCompleted (tie : ℕ → ℕ) : TaskTables :=
  if t.finished.length ≤ maxCompletedTasks then t
  else
    let oldestFirst := t.finished.insertionSort fun a b =>
      toLex (a.2.completedAt, tie a.1) ≤ toLex (b.2.completedAt, tie b.1)
    (oldestFirst.take (t.finished.length - maxCompletedTasks)).foldl (fun t e => t.removeTask e.1) t

/-- A method on a known task: the record is changed in place, then the task is moved. -/
def callTask (c : TaskCall) (tie : ℕ → ℕ) : TaskTables :=
  match t.taskStatus.lookup id with
  | none => t
  | some old =>
    match (t.buckets old).lookup id with
    | none => t
    | some info =>
      let moved := (t.setBucket old ((t.buckets old).insert id (c.write old info))).moveTask id old
        (c.target old)
      if c.target old ≠ old ∧ (c.target old).terminal then moved.maybeCleanupCompleted tie else moved

/-- `none` is the failed assertion of `create_task`. -/
def step : TableOp → Option TaskTables
  | .createTask id spec =>
    if id ∈ t.taskStatus then none
    else some { t.setBucket .pending (insertNew id { submission := spec } (t.buckets .pending)) with
      taskStatus := t.taskStatus.insert id .pending }
  | .call id c tie => some (t.callTask id c tie)
  | .removeTask id => some (t.removeTask id)

def getTask : Option TaskMetadata :=
  (t.taskStatus.lookup id).bind fun status => (t.buckets status).lookup id

def countTasksByStatus (status : TaskStatus) : ℕ := (t.buckets status).keys.length

/-- The five counts together. -/
def countAll : ℕ :=
  t.countTasksByStatus .pending + t.countTasksByStatus .running + t.countTasksByStatus .completed +
    t.countTasksByStatus .failed + t.countTasksByStatus .cancelled

/-! ### What is to hold -/

structure Agrees (t : TaskTables) : Prop where
  filed : ∀ status id info, (t.buckets status).lookup id = some info →
    info.status = status ∧ t.taskStatus.lookup id = some status
  found : ∀ status id, t.taskStatus.lookup id = some status →
    ∃ info, (t.buckets status).lookup id = some info

/-- The task has the record, or it is finished and forgotten, and no finished task that is kept ended
before it. -/
def Drops (t : TaskTables) (id : ℕ) (info : TaskMetadata) : Prop :=
  t.getTask id = some info ∨ t.getTask id = none ∧ info.status.terminal = true ∧
    ∀ k kept, t.getTask k = some kept → kept.status.terminal = true → info.completedAt ≤ kept.completedAt

/-- The record of a task after the call. -/
def record (k : ℕ) (info : TaskMetadata) : TableOp → TaskMetadata
  | .call id c _ =>
    if k = id then { c.write info.status info with status := c.target info.status } else info
  | _ => info

/-- What a call may do to tables that agree. -/
structure Goes (t : TaskTables) (op : TableOp) (t' : TaskTables) : Prop where
  agrees : t'.Agrees
  bounded : ∀ id c tie info, op = .call id c tie → t.getTask id = some info →
    c.target info.status ≠ info.status → (c.target info.status).terminal = true →
      t'.finished.length ≤ maxCompletedTasks
  kept : ∀ k info, t.getTask k = some info → op ≠ .removeTask k → t'.Drops k (record k info op)

variable {t id} {u : TaskTables} {info : TaskMetadata}

/-! ### The methods keep the agreement -/

/-- Tables that agree are a task manager. -/
def Agrees.toManager (h : t.Agrees) : TaskManager := ⟨t.buckets, t.taskStatus, h.filed, h.found⟩

theorem Agrees.getTask_eq_some (h : t.Agrees) :
    t.getTask id = some info ↔ (t.buckets info.status).lookup id = some info :=
  TaskManager.getTask_eq_some (m := h.toManager)

section Views

attribute [local grind =] Table.lookup_insert_eq Table.lookup_erase_eq Function.update_apply

theorem Agrees.put (h : t.Agrees) {old : TaskStatus} (hold : t.taskStatus.lookup id = some old)
    (hinfo : info.status = old) :
    (t.setBucket old ((t.buckets old).insert id info)).Agrees ∧ ∀ k,
      (t.setBucket old ((t.buckets old).insert id info)).getTask k =
        if k = id then some info else t.getTask k := by
  obtain ⟨hfiled, hfound⟩ := h
  simp only [setBucket, getTask]
  refine ⟨⟨fun s k info hlook => ?_, fun s k hlook => ?_⟩, fun k => ?_⟩
  · grind
  · grind
  · cases hk : t.taskStatus.lookup k <;> grind

theorem lookup_insertNew {bucket : Table ℕ TaskMetadata} (h : bucket.lookup id = none) (k : ℕ) :
    (insertNew id info bucket).lookup k = if k = id then some info else bucket.lookup k := by
  rw [insertNew, if_neg (by rw [← lookup_isSome, h]; exact Bool.false_ne_true), lookup_insert_eq]

theorem Agrees.create (h : t.Agrees) (hnot : id ∉ t.taskStatus) (spec : TaskSubmissionSpec)
    (hu : u = { t.setBucket .pending (insertNew id { submission := spec } (t.buckets .pending)) with
      taskStatus := t.taskStatus.insert id .pending }) :
    u.Agrees ∧ ∀ k, k ≠ id → u.getTask k = t.getTask k := by
  have hnone : t.taskStatus.lookup id = none := lookup_eq_none.mpr hnot
  have hbucket : (t.buckets .pending).lookup id = none := by
    cases hlook : (t.buckets .pending).lookup id with
    | none => rfl
    | some info => cases hnone.symm.trans (h.filed _ _ _ hlook).2
  obtain ⟨hfiled, hfound⟩ := h
  subst hu
  simp only [setBucket, getTask]
  refine ⟨⟨fun s k info hlook => ?_, fun s k hlook => ?_⟩, fun k hk => ?_⟩
  · grind [lookup_insertNew]
  · by_cases hs : s = .pending
    · simp only [hs, update_self, lookup_insertNew hbucket]
      split
      · exact ⟨_, rfl⟩
      · grind
    · grind
  · cases hlook : t.taskStatus.lookup k <;> grind [lookup_insertNew]

theorem Agrees.move (h : t.Agrees) (hget : t.getTask id = some info) (target : TaskStatus) :
    (t.moveTask id info.status target).Agrees ∧ ∀ k, (t.moveTask id info.status target).getTask k =
        if k = id then some { info with status := target } else t.getTask k := by
  have hlook := h.getTask_eq_some.mp hget
  have hold := (h.filed _ _ _ hlook).2
  unfold moveTask
  split
  · next heq =>
    refine ⟨h, fun k => ?_⟩
    rw [← heq]
    split
    · next hk => rw [hk, hget]
    · rfl
  · next hne =>
    -- the bucket the record goes to does not hold the task
    have hnone : (t.buckets target).lookup id = none := by
      cases htarget : (t.buckets target).lookup id with
      | none => rfl
      | some other =>
        cases hold.symm.trans (h.filed _ _ _ htarget).2
        exact absurd rfl hne
    obtain ⟨hfiled, hfound⟩ := h
    rw [hlook]
    simp only [setBucket, getTask, update_of_ne (Ne.symm hne)]
    refine ⟨⟨fun s k other hk => ?_, fun s k hk => ?_⟩, fun k => ?_⟩
    · grind [lookup_insertNew]
    · grind [lookup_insertNew]
    · cases hk : t.taskStatus.lookup k <;> grind [lookup_insertNew]

theorem Agrees.remove (h : t.Agrees) (id : ℕ) : (t.removeTask id).Agrees ∧ ∀ k,
    (t.removeTask id).getTask k = if k = id then none else t.getTask k := by
  obtain ⟨hfiled, hfound⟩ := h
  unfold TaskTables.removeTask
  split
  · exact ⟨⟨hfiled, hfound⟩, fun k => by grind [getTask]⟩
  simp only [setBucket, getTask]
  refine ⟨⟨fun s k info hlook => ?_, fun s k hlook => ?_⟩, fun k => ?_⟩
  · grind
  · grind
  · cases hk : t.taskStatus.lookup k <;> grind

end Views

/-! ### The clean-up -/

theorem Agrees.mem_finished (h : t.Agrees) :
    (id, info) ∈ t.finished ↔ t.getTask id = some info ∧ info.status.terminal = true := by
  rw [finished, mem_append, mem_pairs, mem_pairs, h.getTask_eq_some]
  constructor
  · rintro (hlook | hlook)
    all_goals
      have hstatus := (h.filed _ _ _ hlook).1
      rw [hstatus]
      exact ⟨hlook, rfl⟩
  · rintro ⟨hlook, hterminal⟩
    cases hstatus : info.status <;> simp_all [TaskStatus.terminal]

theorem Agrees.nodup_finished (h : t.Agrees) : t.finished.Nodup := by
  refine nodup_append.mpr ⟨(nodup_pairs _).of_map _, (nodup_pairs _).of_map _, ?_⟩
  rintro ⟨k, info⟩ hcompleted ⟨k', info'⟩ hfailed heq
  cases heq
  have hone := (h.filed _ _ _ (mem_pairs.mp hcompleted)).1
  rw [(h.filed _ _ _ (mem_pairs.mp hfailed)).1] at hone
  cases hone

theorem Agrees.forget (h : t.Agrees) (es : List (ℕ × TaskMetadata)) :
    (es.foldl (fun t e => t.removeTask e.1) t).Agrees ∧ ∀ k,
      (es.foldl (fun t e => t.removeTask e.1) t).getTask k =
        if k ∈ es.map Prod.fst then none else t.getTask k := by
  induction es generalizing t with
  | nil => exact ⟨h, fun k => rfl⟩
  | cons e es ih =>
    obtain ⟨hremoved, hgone⟩ := h.remove e.1
    obtain ⟨hagrees, hget⟩ := ih hremoved
    refine ⟨hagrees, fun k => ?_⟩
    rw [foldl_cons, hget, hgone, map_cons]
    by_cases hk : k = e.1 <;> simp only [mem_cons, hk, true_or, false_or, if_true, if_false, ite_self]

/-- Forgetting `gone`, the first part of the finished tasks in the order of their ends. -/
theorem Agrees.forget_first (h : t.Agrees) {gone kept : List (ℕ × TaskMetadata)}
    (hmem : ∀ e, e ∈ t.finished ↔ e ∈ gone ∨ e ∈ kept)
    (hle : ∀ a ∈ gone, ∀ b ∈ kept, a.2.completedAt ≤ b.2.completedAt) :
    (gone.foldl (fun t e => t.removeTask e.1) t).Agrees ∧
    (gone.foldl (fun t e => t.removeTask e.1) t).finished.length ≤ kept.length ∧
    ∀ id info, t.getTask id = some info → (gone.foldl (fun t e => t.removeTask e.1) t).Drops id info := by
  obtain ⟨hagrees, hget⟩ := h.forget gone
  have hkept : (gone.foldl (fun t e => t.removeTask e.1) t).finished ⊆ kept := by
    rintro ⟨k, info⟩ he
    obtain ⟨hnow, hterminal⟩ := hagrees.mem_finished.mp he
    rw [hget] at hnow
    split at hnow
    · cases hnow
    · next hnot =>
      rcases (hmem _).mp (h.mem_finished.mpr ⟨hnow, hterminal⟩) with hgone | hkept
      · exact absurd (mem_map_of_mem hgone) hnot
      · exact hkept
  refine ⟨hagrees, (subperm_of_subset hagrees.nodup_finished hkept).length_le, fun id info hinfo => ?_⟩
  unfold Drops
  rw [hget]
  split
  · next hgone =>
    obtain ⟨⟨k, old⟩, he, rfl⟩ := mem_map.mp hgone
    obtain ⟨hold, hterminal⟩ := h.mem_finished.mp ((hmem _).mpr (.inl he))
    cases hold.symm.trans hinfo
    exact .inr ⟨rfl, hterminal, fun j last hj hend =>
      hle _ he _ (hkept (hagrees.mem_finished.mpr ⟨hj, hend⟩))⟩
  · exact .inl hinfo

/-- **The clean-up** leaves at most the number of finished tasks that is kept, the latest ones. -/
theorem Agrees.cleanup (h : t.Agrees) (tie : ℕ → ℕ) : (t.maybeCleanupCompleted tie).Agrees ∧
    (t.maybeCleanupCompleted tie).finished.length ≤ maxCompletedTasks ∧
    ∀ id info, t.getTask id = some info → (t.maybeCleanupCompleted tie).Drops id info := by
  unfold maybeCleanupCompleted
  split
  · next hle => exact ⟨h, hle, fun id info hget => .inl hget⟩
  rename_i hmany
  extract_lets oldestFirst
  have hsorted : oldestFirst.Pairwise fun a b => a.2.completedAt ≤ b.2.completedAt := by
    have := pairwise_insertionSort (fun a b : ℕ × TaskMetadata =>
      toLex (a.2.completedAt, tie a.1) ≤ toLex (b.2.completedAt, tie b.1)) t.finished
    exact this.imp fun hle => Prod.Lex.monotone_fst _ _ hle
  have hparts := take_append_drop (t.finished.length - maxCompletedTasks) oldestFirst
  rw [← hparts, pairwise_append] at hsorted
  obtain ⟨hagrees, hlength, hdrops⟩ := h.forget_first
    (fun e => by rw [← mem_append, hparts]; exact (mem_insertionSort _).symm) hsorted.2.2
  refine ⟨hagrees, hlength.trans ?_, hdrops⟩
  rw [length_drop, length_insertionSort]
  omega

/-! ### Every call -/

theorem status_write (old : TaskStatus) (c : TaskCall) : (c.write old info).status = info.status := by
  cases c <;> simp only [TaskCall.write] <;> split <;> rfl

theorem Agrees.call (h : t.Agrees) (c : TaskCall) (tie : ℕ → ℕ) :
    t.Goes (.call id c tie) (t.callTask id c tie) := by
  unfold callTask
  cases hold : t.taskStatus.lookup id with
  | none =>
    have hnone : t.getTask id = none := by rw [getTask, hold, bind_none]
    refine ⟨h, fun _ _ _ info hop hget => ?_, fun k info hk _ => .inl ?_⟩
    · cases hop
      cases hnone.symm.trans hget
    · rw [record, if_neg, hk]
      rintro rfl
      cases hnone.symm.trans hk
  | some old =>
    obtain ⟨info, hinfo⟩ := h.found old id hold
    obtain rfl := (h.filed old id info hinfo).1
    obtain ⟨hput, hputGet⟩ := h.put hold (status_write info.status c)
    have hmine := (hputGet id).trans (if_pos rfl)
    obtain ⟨hagrees, hget⟩ := hput.move hmine (c.target info.status)
    rw [status_write] at hagrees hget
    have hrecord : ∀ k other, t.getTask k = some other →
        ((t.setBucket info.status ((t.buckets info.status).insert id (c.write info.status info))).moveTask
          id info.status (c.target info.status)).getTask k = some (record k other (.call id c tie)) := by
      intro k other hk
      rw [hget, record]
      split
      · next heq =>
        rw [heq, h.getTask_eq_some.mpr hinfo] at hk
        cases hk
        rfl
      · next hne => rw [hputGet, if_neg hne, hk]
    simp only [hinfo]
    split
    · obtain ⟨hclean, hlength, hdrops⟩ := hagrees.cleanup tie
      exact ⟨hclean, fun _ _ _ _ _ _ _ _ => hlength, fun k other hk _ => hdrops k _ (hrecord k other hk)⟩
    rename_i hnot
    refine ⟨hagrees, fun _ _ _ other hop hk hne hterminal => ?_,
      fun k other hk _ => .inl (hrecord k other hk)⟩
    cases hop
    rw [h.getTask_eq_some.mpr hinfo] at hk
    cases hk
    exact absurd ⟨hne, hterminal⟩ hnot

theorem Agrees.goes (h : t.Agrees) {op : TableOp} (hstep : t.step op = some u) : t.Goes op u := by
  cases op with
  | createTask id spec =>
    simp only [step] at hstep
    split at hstep
    · cases hstep
    rename_i hnot
    obtain ⟨hagrees, hget⟩ := h.create hnot spec (some.inj hstep).symm
    refine ⟨hagrees, fun _ _ _ _ hop => TableOp.noConfusion hop, fun k info hk _ => .inl ?_⟩
    rw [hget, hk]
    · rfl
    rintro rfl
    rw [getTask, lookup_eq_none.mpr hnot] at hk
    cases hk
  | call id c tie =>
    cases hstep
    exact h.call c tie
  | removeTask id =>
    cases hstep
    obtain ⟨hagrees, hget⟩ := h.remove id
    refine ⟨hagrees, fun _ _ _ _ hop => TableOp.noConfusion hop, fun k info hk hop => .inl ?_⟩
    rw [hget, if_neg, hk]
    · rfl
    rintro rfl
    exact hop rfl

/-- The tasks of the buckets are the tasks of the index, each counted once. -/
theorem Agrees.countAll_eq (h : t.Agrees) : t.countAll = t.taskStatus.keys.length := by
  have hmem : ∀ s k, k ∈ (t.buckets s).keys ↔ t.taskStatus.lookup k = some s := by
    intro s k
    rw [← AList.mem_keys, ← AList.lookup_isSome, Option.isSome_iff_exists]
    exact ⟨fun ⟨info, hinfo⟩ => (h.filed s k info hinfo).2, h.found s k⟩
  have hperm : ([.pending, .running, .completed, .failed, .cancelled].flatMap fun status =>
      (t.buckets status).keys).Perm t.taskStatus.keys := by
    refine (perm_ext_iff_of_nodup (nodup_flatMap.mpr ⟨fun s _ => (t.buckets s).keys_nodup, ?_⟩)
      t.taskStatus.keys_nodup).mpr fun k => ?_
    · refine Nodup.pairwise_of_forall_ne (by decide) fun a _ b _ hne k hka hkb => hne ?_
      rw [hmem] at hka hkb
      exact some.inj (hka.symm.trans hkb)
    · rw [mem_flatMap, ← AList.mem_keys, ← AList.lookup_isSome, Option.isSome_iff_exists]
      simp only [hmem]
      exact ⟨fun ⟨s, _, hs⟩ => ⟨s, hs⟩, fun ⟨s, hs⟩ => ⟨s, by cases s <;> decide, hs⟩⟩
  rw [← hperm.length_eq, countAll]
  simp only [countTasksByStatus, flatMap_cons, flatMap_nil, length_append, length_nil]
  omega

/-- **The two views of the task table** agree after every run, the counts of the buckets add up to the
number of known tasks, and each further call forgets finished tasks only, the ones that ended first. -/
theorem tables_represent {ops : List TableOp} (hrun : run step {} ops = some t) : t.Agrees ∧
    t.countAll = t.taskStatus.keys.length ∧
    ∀ op t', t.step op = some t' → t.Goes op t' := by
  have hinit : Agrees {} := by
    refine ⟨fun _ _ _ hlook => ?_, fun _ _ hlook => ?_⟩
    all_goals cases hlook
  have h := run_invariant (fun _ _ _ _ hagrees hstep => (hagrees.goes hstep).agrees) hinit hrun
  exact ⟨h, h.countAll_eq, fun op t' => h.goes⟩

/-- One more task fails than are kept. -/
def manyFailed : List TableOp :=
  (range (maxCompletedTasks + 1)).flatMap
    fun k => [.createTask k {}, .call k (.failTask (k + 1) "e") Nat.succ]

/-- The task that failed first is forgotten, the next is kept. -/
theorem tables_represent_manyFailed : ∃ t, run step {} manyFailed = some t ∧
    (t.getTask 0 = none ∧ (t.getTask 1).isSome ∧ t.countTasksByStatus .failed = maxCompletedTasks) ∧
      t.Agrees ∧ t.countAll = t.taskStatus.keys.length :=
  exists_and_of_decide (by decide +kernel) fun _ hrun _ =>
    ⟨(tables_represent hrun).1, (tables_represent hrun).2.1⟩

end TaskTables

end Fly.Task
