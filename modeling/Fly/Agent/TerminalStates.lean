import Fly.Agent.TaskMoves

/-!
# Ended tasks stay ended

A task that is completed or failed should never be queued or run again, unless the user restarts it.

`handle_worker_death` reads the running tasks of the dead worker in one locked section and queues each of
them again in a section of its own.  Meanwhile such a task is *being recovered*.  A report handled in
between ends the task, and it is queued again all the same: `TaskManager::unassign_task` takes it out of
whatever bucket it is in.

* `Over` — the task is not in the graph, and its status is terminal if the table still knows it;
* `terminal_final` — **an ended task stays ended along every interleaving in which it is never ended
  while it is being recovered**, until its id is submitted again;
* `completed_task_requeued` — a completion between snapshot and re-queue loop is undone.
-/

namespace Fly.Agent

open Fly.Lib Fly.Task List Option Instr MasterWorld TaskManager Threaded

/-- The task has ended. -/
structure Over (t : ℕ) (s : Master) : Prop where
  absent : ¬s.graph.Holds t
  terminal : ∀ info, s.metadata.getTask t = some info → info.status.terminal = true

/-- The instructions of `handle_worker_death` between the snapshot that has the task in it and the
section that queues it again. -/
def Instr.recovers (t : ℕ) : Instr → Bool
  | recoverTasks _ tasks => tasks.contains t
  | readTask _ id => id == t
  | requeueTask _ id _ => id == t
  | _ => false

/-- No thread is recovering the task. -/
def Unrecovered (t : ℕ) (w : MasterWorld) : Prop := w.All fun op => op.recovers t = false

def TaskMove.ends : TaskMove → Option ℕ
  | finish id => some id
  | _ => .none

/-- A step that ends the task is taken only while nobody is recovering it. -/
def EndsAlone (t : ℕ) (w : MasterWorld) (_ : Outside) (x : Instr ⊕ Pass) : Prop :=
  (stepMove w.shared x).ends = some t → Unrecovered t w

def Instr.submits : Instr → Option ℕ
  | enterTask id _ => some id
  | _ => none

/-- The id of the task is not submitted again. -/
def NotSubmitted (t : ℕ) (_ : MasterWorld) (_ : Outside) : Instr ⊕ Pass → Prop
  | .inl op => op.submits ≠ some t
  | .inr _ => True

variable {t : ℕ} {s s' : Master} {e : Outside} {w w' : MasterWorld} {a : MasterAction}

theorem over_of_terminal (hp : Placed s) {status : TaskStatus}
    (hstatus : s.metadata.statusOf t = some status) (hterm : status.terminal = true) : Over t s := by
  obtain ⟨info, hinfo, rfl⟩ := map_eq_some_iff.mp hstatus
  refine ⟨fun hholds => ?_, fun info' hinfo' => ?_⟩
  · rw [hp.held t info hinfo hholds] at hterm
    cases hterm
  · rw [hinfo, some.injEq] at hinfo'
    exact hinfo' ▸ hterm

/-- Only three moves can bring a task back, and recording a decision does so only for a pending task. -/
theorem Over.of_move {move : TaskMove} (h : Over t s) (hd : move.Describes s s')
    (henter : ∀ spec, move ≠ .enter t spec) (hrequeue : move ≠ .requeue t)
    (hrecord : ∀ worker, move = .record t worker →
      ∀ info, s.metadata.getTask t = some info → info.status = .pending) : Over t s' := by
  have habsent : ¬s'.graph.Holds t := by
    rw [hd.held t]
    cases move with
    | enter id spec =>
      rintro (rfl | hholds)
      · exact henter spec rfl
      · exact h.absent hholds
    | requeue id =>
      rintro (rfl | hholds)
      · exact hrequeue rfl
      · exact h.absent hholds
    | finish id | take id => exact fun hholds => h.absent hholds.2
    | _ => exact h.absent
  refine ⟨habsent, fun info hinfo => ?_⟩
  rcases hd.seen hinfo with ⟨hold, -⟩ | ⟨-, hholds⟩ | ⟨-, hterm, -⟩ | ⟨worker, rfl, -⟩
  · exact h.terminal info hold
  · exact absurd hholds habsent
  · exact hterm
  have htable := hd.table t
  rw [if_pos rfl, hinfo] at htable
  obtain ⟨old, hold, -⟩ := map_eq_some_iff.mp htable.symm
  have hterm := h.terminal old hold
  rw [hrecord worker rfl old hold] at hterm
  cases hterm

/-! ### Who recovers a task -/

theorem Handler.program_unrecovered (g : Handler) : ∀ op ∈ g.program, op.recovers t = false := by
  intro op hop
  cases g with
  | restartFailedTasks records =>
    obtain ⟨r, -, hop⟩ := mem_flatMap.mp hop
    simp only [mem_cons, not_mem_nil, or_false] at hop
    rcases hop with rfl | rfl | rfl <;> rfl
  | _ =>
    simp only [program, mem_cons, not_mem_nil, or_false] at hop
    rcases hop with rfl | rfl <;> rfl

/-- A recovery starts with a running task, and goes on from a recovery. -/
theorem Instr.recovers_todo {op op' : Instr} {todo : List Instr}
    (hexec : op.exec e s = some (.done s' todo)) (hop' : op' ∈ todo)
    (hrec : op'.recovers t = true) :
    op.recovers t = true ∨ s'.metadata.statusOf t = some .running := by
  cases op with
  | recordDeath worker =>
    cases hexec
    rw [mem_singleton.mp hop', recovers, contains_iff_mem, mem_getTaskIdsByWorker] at hrec
    obtain ⟨info, hinfo, hstatus, -⟩ := hrec
    exact .inr (map_eq_some_iff.mpr ⟨info, hinfo, hstatus⟩)
  | _ =>
    -- the other instructions hand on the task they have, or start no recovery
    simp only [exec] at hexec
    grind [recovers, map_eq_some_iff]

/-- While nobody recovers the task, a recovery begins only if the task is running. -/
theorem Unrecovered.step (h : Unrecovered t w) (hstep : masterAgent.step w a = some w')
    (hnot : w'.shared.metadata.statusOf t ≠ some .running) : Unrecovered t w' := by
  rcases step_cases hstep with ⟨g, -, rfl⟩ | ⟨i, e, -, hcase⟩
  · exact h.call g.program_unrecovered
  rcases hcase with ⟨p, s, p', -, -, -, rfl⟩ | ⟨op, rest, hexec, hcase⟩
  · exact h
  rcases hcase with ⟨s, todo, hdone, rfl⟩ | ⟨p, -, -, rfl⟩
  · refine h.set hexec.thread (fun op' hop' => ?_) s w.holder
    by_contra hrec
    rw [Bool.not_eq_false] at hrec
    rcases recovers_todo hdone hop' hrec with hold | hrun
    · rw [h.head hexec.thread] at hold
      cases hold
    · exact hnot hrun
  · exact h.set hexec.thread (forall_mem_nil _) w.shared _

theorem Over.not_running (h : Over t s) : s.metadata.statusOf t ≠ some .running := by
  intro hstatus
  obtain ⟨info, hinfo, hrun⟩ := map_eq_some_iff.mp hstatus
  have hterm := h.terminal info hinfo
  rw [hrun] at hterm
  cases hterm

/-- An ended task that nobody recovers stays ended. -/
theorem Over.step (h : Over t w.shared) (hord : Ordered w.shared w.section?) (hun : Unrecovered t w)
    (hmeet : ∀ i e x, a = .step i e → w.next i = some x → NotSubmitted t w e x)
    (hstep : masterAgent.step w a = some w') : Over t w'.shared := by
  obtain ⟨move, hd, hmove⟩ := step_describes hord.placed.graph hstep
  rcases hmove with rfl | ⟨i, e, x, ha, hnext, rfl⟩
  · exact h.of_move hd (by simp) (by simp) (by simp)
  refine h.of_move hd (fun spec hmove => ?_) (fun hmove => ?_) fun worker hmove => ?_
  · -- only a submission enters a task
    cases x with
    | inl op =>
      have hop := hmeet i e _ ha hnext
      rw [eq_enterTask hmove] at hop
      exact hop rfl
    | inr p => exact p.move_ne_enter t spec hmove
  · -- only a recovery queues one again
    cases x with
    | inl op =>
      obtain ⟨thread, hthread, hop⟩ := World.thread_of_next hnext
      have hrec := hun thread hthread op hop
      obtain ⟨worker, spec, rfl⟩ := eq_requeueTask hmove
      simp [recovers] at hrec
    | inr p => exact p.move_ne_requeue t hmove
  · -- what the pass records is pending
    cases x with
    | inl op => exact absurd hmove (op.move_ne_record w.shared t worker)
    | inr p =>
      exact (hord.pass p (World.section?_of_next hnext)).pending _ (Pass.mem_hand_of_record hmove)

/-! ### Whole runs -/

/-- An ended task is not being recovered. -/
theorem unrecovered_of_ended {acts : List MasterAction} (hok : masterAgent.Meets (EndsAlone t) init acts)
    (hrun : run masterAgent.step init acts = some w) {status : TaskStatus}
    (hstatus : w.shared.metadata.statusOf t = some status) (hterm : status.terminal = true) :
    Unrecovered t w := by
  have hinv : Ordered w.shared w.section? ∧
      ∀ status ∈ w.shared.metadata.statusOf t, status.terminal = true → Unrecovered t w := by
    refine run_meets (P := masterAgent) (C := EndsAlone t) (I := fun w => Ordered w.shared w.section? ∧
        ∀ status ∈ w.shared.metadata.statusOf t, status.terminal = true → Unrecovered t w)
      ?_ ⟨ordered_init, ?_⟩ hok hrun
    · rintro w a w' ⟨hord, hun⟩ hmeet hstep
      refine ⟨hord.step hstep, fun status hstatus hterm => ?_⟩
      have hnot : w'.shared.metadata.statusOf t ≠ some .running := by
        rw [hstatus]
        rintro ⟨⟩
        cases hterm
      refine Unrecovered.step ?_ hstep hnot
      -- the task had ended before, or this step ends it
      obtain ⟨info, hinfo, rfl⟩ := map_eq_some_iff.mp hstatus
      obtain ⟨move, hd, hmove⟩ := step_describes hord.placed.graph hstep
      rcases hd.seen hinfo with ⟨hold, -⟩ | ⟨hpending, -⟩ | ⟨rfl, -⟩ | ⟨worker, -, hrunning, -⟩
      · exact hun info.status (map_eq_some_iff.mpr ⟨info, hold, rfl⟩) hterm
      · rw [hpending] at hterm
        cases hterm
      · rcases hmove with hnone | ⟨i, e, x, ha, hnext, hmove⟩
        · cases hnone
        · refine hmeet i e x ha hnext ?_
          rw [← hmove]
          rfl
      · rw [hrunning] at hterm
        cases hterm
    · intro status hstatus
      simp [init, statusOf, getTask] at hstatus
  exact hinv.2 status hstatus hterm

/-- **Terminal states are final.**  In a run in which the task is never ended while it is being
recovered, once it is completed or failed it is not put back into the graph and does not become pending
or running, unless its id is submitted again. -/
theorem terminal_final (t : ℕ) (acts₁ acts₂ : List MasterAction) (w₁ w₂ : MasterWorld)
    (hok : masterAgent.Meets (EndsAlone t) init acts₁)
    (hrun₁ : run masterAgent.step init acts₁ = some w₁)
    (hend : w₁.shared.metadata.statusOf t = some .completed ∨ w₁.shared.metadata.statusOf t = some .failed)
    (hsubmit : masterAgent.Meets (NotSubmitted t) w₁ acts₂)
    (hrun₂ : run masterAgent.step w₁ acts₂ = some w₂) :
    ¬w₂.shared.graph.Holds t ∧ w₂.shared.metadata.statusOf t ≠ some .pending ∧
      w₂.shared.metadata.statusOf t ≠ some .running := by
  have hord := ordered_run hrun₁
  obtain ⟨hover, hun⟩ : Over t w₁.shared ∧ Unrecovered t w₁ := by
    rcases hend with hend | hend
    all_goals
      exact ⟨over_of_terminal hord.placed hend rfl, unrecovered_of_ended hok hrun₁ hend rfl⟩
  have hinv : Ordered w₂.shared w₂.section? ∧ Over t w₂.shared ∧ Unrecovered t w₂ := by
    refine run_meets (P := masterAgent) (C := NotSubmitted t) (I := fun w => Ordered w.shared w.section? ∧
        Over t w.shared ∧ Unrecovered t w) ?_ ⟨hord, hover, hun⟩ hsubmit hrun₂
    rintro w a w' ⟨hord, hover, hun⟩ hmeet hstep
    have hover' := hover.step hord hun hmeet hstep
    exact ⟨hord.step hstep, hover', hun.step hstep hover'.not_running⟩
  refine ⟨hinv.2.1.absent, fun hstatus => ?_, hinv.2.1.not_running⟩
  obtain ⟨info, hinfo, hpending⟩ := map_eq_some_iff.mp hstatus
  have hterm := hinv.2.1.terminal info hinfo
  rw [hpending] at hterm
  cases hterm

instance (t : ℕ) (w : MasterWorld) (e : Outside) : DecidablePred (EndsAlone t w e) := fun x =>
  inferInstanceAs (Decidable ((stepMove w.shared x).ends = some t →
    ∀ thread ∈ w.threads, ∀ op ∈ thread, op.recovers t = false))

instance (t : ℕ) (w : MasterWorld) (e : Outside) : DecidablePred (NotSubmitted t w e)
  | .inl op => inferInstanceAs (Decidable (¬op.submits = some t))
  | .inr _ => instDecidableTrue

/-- The tasks of the dead worker are queued again. -/
def recoveredRun (thread : ℕ) : List MasterAction := [.step thread {}, .step thread {}, .step thread {}]

/-- Worker 1 gets task 2 and dies; task 2 is queued again. -/
def nextTaskRun : List MasterAction := decidedRun 3 2 ++ sentRun 3 ++ diedRun 4 ++ recoveredRun 4

theorem terminal_final_nextTask : ∃ w₁ w₂,
    run masterAgent.step init (assignedRun ++ reportedRun 2 1) = some w₁ ∧
    run masterAgent.step w₁ nextTaskRun = some w₂ ∧
    w₂.shared.metadata.statusOf 2 = some .pending ∧
    (¬w₂.shared.graph.Holds 1 ∧ w₂.shared.metadata.statusOf 1 ≠ some .pending ∧
      w₂.shared.metadata.statusOf 1 ≠ some .running) := by
  have hmeets : masterAgent.Meets (EndsAlone 1) init (assignedRun ++ reportedRun 2 1) :=
    Threaded.meets_of_decide (by decide +kernel)
  have hseen : ((run masterAgent.step init (assignedRun ++ reportedRun 2 1)).bind
      fun w₁ => (run masterAgent.step w₁ nextTaskRun).map fun w₂ =>
        (w₁.shared.metadata.statusOf 1, w₂.shared.metadata.statusOf 2,
          masterAgent.check (fun w e x => decide (NotSubmitted 1 w e x)) w₁ nextTaskRun)) =
      some (some .completed, some .pending, true) := by
    decide +kernel
  obtain ⟨w₁, hrun₁, hseen⟩ := bind_eq_some_iff.mp hseen
  obtain ⟨w₂, hrun₂, hw⟩ := map_eq_some_iff.mp hseen
  rw [Prod.mk.injEq, Prod.mk.injEq] at hw
  obtain ⟨hend, hnext, hcheck⟩ := hw
  have hsubmit : masterAgent.Meets (NotSubmitted 1) w₁ nextTaskRun :=
    Threaded.meets_of_decide hcheck
  exact ⟨w₁, w₂, hrun₁, hrun₂, hnext, terminal_final 1 _ _ w₁ w₂ hmeets hrun₁ (.inl hend) hsubmit hrun₂⟩

/-- **A completed task is queued again**: the report is handled after the tasks of the dead worker have
been read and before they are queued. -/
theorem completed_task_requeued : ∃ w₁ w₂,
    run masterAgent.step init (assignedRun ++ diedRun 2 ++ reportedRun 3 1) = some w₁ ∧
    w₁.shared.metadata.statusOf 1 = some .completed ∧
    run masterAgent.step w₁ (recoveredRun 2) = some w₂ ∧
    w₂.shared.metadata.statusOf 1 = some .pending ∧ w₂.shared.graph.Holds 1 := by
  have hseen : ((run masterAgent.step init (assignedRun ++ diedRun 2 ++ reportedRun 3 1)).bind
      fun w₁ => (run masterAgent.step w₁ (recoveredRun 2)).map fun w₂ =>
        (w₁.shared.metadata.statusOf 1, w₂.shared.metadata.statusOf 1,
          decide (w₂.shared.graph.Holds 1))) = some (some .completed, some .pending, true) := by
    decide +kernel
  obtain ⟨w₁, hrun₁, hseen⟩ := bind_eq_some_iff.mp hseen
  obtain ⟨w₂, hrun₂, hw⟩ := map_eq_some_iff.mp hseen
  rw [Prod.mk.injEq, Prod.mk.injEq, decide_eq_true_eq] at hw
  exact ⟨w₁, w₂, hrun₁, hw.1, hrun₂, hw.2⟩

end Fly.Agent
