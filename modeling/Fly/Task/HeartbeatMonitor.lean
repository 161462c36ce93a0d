import Fly.Lib.Run
import Fly.Task.WorkerManager
import Mathlib.Algebra.Group.Nat.Defs

/-!
# The heartbeat check (`task/cpp/heartbeat_monitor.cpp`)

The check loop of the master reads the clock, copies the list of exempt workers, copies the worker
table, and then judges the copies one by one.  Heartbeats come in between: each stamps the record of its
worker with the clock.  Times are whole seconds in 64 bits, and the silence of a worker is an unsigned
difference.

* `MonitorWorld.step` — the loop and what runs beside it, one critical section at a time;
* `deaths_justified` — **nobody is marked `DEAD` too early, if no copy that is judged is newer than the
  time the loop has read.**  A heartbeat between the two makes the difference wrap around.
-/

namespace Fly.Task

open Fly.Lib WorkerManager Option

/-- Where the check loop stands: between two checks, after reading the clock, or judging its copies. -/
inductive CheckPhase where
  | resting
  | sampled (currentTime : ℕ) (exempt : List ℕ)
  | judging (currentTime : ℕ) (exempt : List ℕ) (copies : List (ℕ × WorkerInfo))

structure MonitorWorld where
  clock : ℕ := 0
  manager : WorkerManager := {}
  phase : CheckPhase := .resting
  deadWorkers : List ℕ := []
  /-- The time and the copy on which the last step has marked a worker `DEAD`. -/
  marked : Option (ℕ × WorkerInfo) := none

inductive MonitorAct where
  | tick (seconds : ℕ)
  | register (id : ℕ) (identity : WorkerIdentity)
  | setHeartbeat (id timestamp : ℕ)
  | recordHeartbeat (id : ℕ)
  | updateStatus (id : ℕ) (status : WorkerStatus)
  | sample (exempt : List ℕ)
  | snapshot
  | judge

/-- The difference of two times as the code computes it. -/
def elapsed (currentTime lastHeartbeat : ℕ) : ℕ := (currentTime + 2 ^ 64 - lastHeartbeat) % 2 ^ 64

namespace MonitorWorld

/-- The body of the loop of `check_all_workers`. -/
def judge (timeout currentTime : ℕ) (exempt : List ℕ) (w : MonitorWorld) (worker : ℕ × WorkerInfo) :
    MonitorWorld :=
  if worker.2.status = .exited then w
  else if worker.2.status = .dead then { w with deadWorkers := w.deadWorkers ++ [worker.1] }
  else if worker.1 ∈ exempt then w
  else if timeout < elapsed currentTime worker.2.lastHeartbeat then
    { w with
      manager := w.manager.updateWorkerStatus worker.1 .dead
      deadWorkers := w.deadWorkers ++ [worker.1]
      marked := some (currentTime, worker.2) }
  else w

/-- A step with the clock at a given time; `none` for a step that cannot be taken. -/
def step (timeout : ℕ) (w : MonitorWorld) (a : MonitorAct) : Option MonitorWorld :=
  let v := { w with marked := none }
  match a with
  | .tick seconds =>
    if w.clock + seconds < 2 ^ 64 then some { v with clock := w.clock + seconds } else none
  | .register id identity => some { v with manager := w.manager.registerWorker w.clock id identity }
  | .setHeartbeat id timestamp =>
    -- the handler has read the clock before it enters the table
    if timestamp ≤ w.clock then some { v with manager := w.manager.recordHeartbeat timestamp id }
    else none
  | .recordHeartbeat id => some { v with manager := w.manager.recordHeartbeat w.clock id }
  | .updateStatus id status => some { v with manager := w.manager.updateWorkerStatus id status }
  | .sample exempt =>
    match w.phase with
    | .resting => some { v with phase := .sampled w.clock exempt }
    | _ => none
  | .snapshot =>
    match w.phase with
    | .sampled t exempt =>
      some { v with phase := .judging t exempt w.manager.getAllWorkers, deadWorkers := [] }
    | _ => none
  | .judge =>
    match w.phase with
    | .judging _ _ [] => some { v with phase := .resting }
    | .judging t exempt (worker :: copies) =>
      some (judge timeout t exempt { v with phase := .judging t exempt copies } worker)
    | _ => none

/-! ### What is to hold -/

/-- Whoever was marked had been silent for more than the timeout when the clock was read. -/
def Justified (timeout : ℕ) (w : MonitorWorld) : Prop :=
  ∀ v ∈ w.marked, v.2.lastHeartbeat + timeout < v.1

/-- The copy judged next, of a live worker that is not exempt, is no newer than the time the loop has
read. -/
def InTime (w : MonitorWorld) : Prop :=
  match w.phase with
  | .judging t exempt ((id, info) :: _) =>
    info.status.alive = true → id ∉ exempt → info.lastHeartbeat ≤ t
  | _ => True

variable {timeout : ℕ} {w w' : MonitorWorld}

theorem justified_of_unmarked (h : w.marked = none) : w.Justified timeout := by
  intro v hv
  rw [h] at hv
  cases hv

theorem justified_judge {t id : ℕ} {info : WorkerInfo} {exempt : List ℕ} (hmarked : w.marked = none)
    (hin : info.status.alive = true → id ∉ exempt → info.lastHeartbeat ≤ t) :
    (w.judge timeout t exempt (id, info)).Justified timeout := by
  unfold judge
  split
  · exact justified_of_unmarked hmarked
  split
  · exact justified_of_unmarked hmarked
  rename_i hexited hdead
  split
  · exact justified_of_unmarked hmarked
  rename_i hexempt
  split
  · next hlate =>
    intro v hv
    cases hv
    have halive : info.status.alive = true := by
      cases hstatus : info.status <;> simp_all [WorkerStatus.alive]
    have hle := hin halive hexempt
    -- a difference that does not wrap around is at most the silence of the worker
    have helapsed : elapsed t info.lastHeartbeat ≤ t - info.lastHeartbeat := by
      rw [elapsed, show t + 2 ^ 64 - info.lastHeartbeat = t - info.lastHeartbeat + 2 ^ 64 by omega,
        Nat.add_mod_right]
      exact Nat.mod_le _ _
    change timeout < elapsed t info.lastHeartbeat at hlate
    show info.lastHeartbeat + timeout < t
    omega
  · exact justified_of_unmarked hmarked

/-- Only the judging step marks anybody. -/
theorem justified_step {a : MonitorAct} (h : step timeout w a = some w') (hin : a = .judge → w.InTime) :
    w'.Justified timeout := by
  cases a with
  | tick seconds | setHeartbeat id timestamp =>
    simp only [step] at h
    split at h
    · cases h
      exact justified_of_unmarked rfl
    · cases h
  | register id identity | recordHeartbeat id | updateStatus id status =>
    cases h
    exact justified_of_unmarked rfl
  | sample exempt | snapshot =>
    simp only [step] at h
    split at h
    · cases h
      exact justified_of_unmarked rfl
    · cases h
  | judge =>
    have hin := hin rfl
    simp only [step] at h
    split at h
    · cases h
      exact justified_of_unmarked rfl
    · next t exempt worker copies hphase =>
      cases h
      rw [InTime, hphase] at hin
      exact justified_judge rfl hin
    · cases h

/-- **Deaths are justified if every copy is judged in time**, in every interleaving. -/
theorem deaths_justified {acts : List MonitorAct} (hrun : run (step timeout) {} acts = some w)
    (hin : ∀ pre post u, acts = pre ++ .judge :: post → run (step timeout) {} pre = some u → u.InTime) :
    w.Justified timeout := by
  rcases List.eq_nil_or_concat acts with rfl | ⟨pre, a, rfl⟩
  · cases hrun
    exact justified_of_unmarked rfl
  rw [List.concat_eq_append] at hrun
  obtain ⟨u, hu, hv⟩ := run_concat.mp hrun
  refine justified_step hv fun ha => hin pre [] u ?_ hu
  rw [List.concat_eq_append, ha]

instance (w : MonitorWorld) : Decidable w.InTime := by
  unfold InTime
  split <;> infer_instance

/-- The worker falls silent, and the loop reads the clock 31 seconds after its last heartbeat. -/
def silentWorker : List MonitorAct :=
  [.tick 10, .register 1 {}, .tick 1, .recordHeartbeat 1, .tick 31, .sample [], .snapshot, .judge]

theorem deaths_justified_silentWorker : ∃ w, run (step 30) {} silentWorker = some w ∧
    w.manager.workerStatusSnapshot 1 = some .dead ∧ w.Justified 30 := by
  have hchecks : checks (step 30) (fun u _ => decide u.InTime) {} silentWorker = true := by decide +kernel
  refine exists_and_of_decide (by decide +kernel) fun w hrun _ => deaths_justified hrun ?_
  exact fun pre post u hsplit hu => of_decide_eq_true (safe_of_checks hchecks hsplit hu)

/-- The worker sends a heartbeat between the reading of the clock and the copying of the table. -/
def heartbeatBehindSample : List MonitorAct :=
  [.tick 10, .register 1 {}, .sample [], .tick 1, .recordHeartbeat 1, .snapshot, .judge]

/-- **A heartbeat kills its worker**: it is one second newer than the time the loop has read. -/
theorem fresh_heartbeat_kills : ∃ w, run (step 30) {} heartbeatBehindSample = some w ∧
    w.manager.workerStatusSnapshot 1 = some .dead ∧ w.deadWorkers = [1] ∧
    w.marked.map (fun v => (v.1, v.2.lastHeartbeat)) = some (10, 11) ∧ ¬w.Justified 30 := by
  obtain ⟨w, hrun, hstatus, hdead, hmarked⟩ := exists_of_decide
    (o := run (step 30) {} heartbeatBehindSample)
    (p := fun w => w.manager.workerStatusSnapshot 1 = some .dead ∧ w.deadWorkers = [1] ∧
      w.marked.map (fun v => (v.1, v.2.lastHeartbeat)) = some (10, 11)) (by decide +kernel)
  refine ⟨w, hrun, hstatus, hdead, hmarked, fun hjust => ?_⟩
  obtain ⟨v, hv, htimes⟩ := map_eq_some_iff.mp hmarked
  have hlate := hjust v hv
  rw [Prod.mk.injEq] at htimes
  omega

end MonitorWorld

end Fly.Task
