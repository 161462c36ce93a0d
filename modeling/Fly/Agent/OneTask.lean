import Fly.Agent.TaskMoves

/-!
# One task per worker

A worker should be offered to the scheduler only while nothing that was sent to it is unfinished, and so
never have two unfinished tasks.

The *load* of a worker counts the assignments sent to it and not yet reported or re-queued, and those that
are on their way: decided by the scheduling pass, or claimed by a backup or merge request.  Six places of
the source write the status of a worker; of these the scheduling pass and the cancellation of a merge
task look at what the worker is doing, and the other four do not.

* `load` — the load; `Instr.frees` — the worker that an instruction of the four writes;
* `one_task_per_worker` — **no loaded worker is idle, and no worker has two unfinished tasks, along every
  interleaving in which those instructions meet a worker without load**;
* `revived_worker_idle` — a heartbeat makes a worker idle that still runs its task.
-/

namespace Fly.Agent

open Fly.Lib Fly.Task List Option Instr WorkerManager Liveness MasterWorld Pass Prod Threaded World Master

/-! ### The load of a worker -/

/-- How many of the assignments go to the worker. -/
def sentTo (v : ℕ) (pairs : List (ℕ × ℕ)) : ℕ := (pairs.map snd).count v

/-- The instructions between claiming a worker and sending it the assignment. -/
def Instr.load (v : ℕ) : Instr → ℕ
  | sendMergeTask worker _ | cancelTask worker _ | sendAssign worker _ => if worker = v then 1 else 0
  | _ => 0

/-- The decisions of the pass that have claimed the worker and are not sent yet. -/
def Pass.load (v : ℕ) : Pass → ℕ
  | readReady results => sentTo v results
  | readIdle _ results => sentTo v results
  | choose _ _ results => sentTo v results
  | claim _ _ results => sentTo v results
  | remove id worker results => sentTo v (results ++ [(id, worker)])
  | assign todo => sentTo v todo
  | send id worker todo => sentTo v ((id, worker) :: todo)
  | record _ _ todo => sentTo v todo
  | _ => 0

def sectionLoad (v : ℕ) (section? : Option Pass) : ℕ := section?.elim 0 (load v)

def load (v : ℕ) (w : MasterWorld) : ℕ :=
  sentTo v w.shared.unfinished + w.weigh (Instr.load v) + sectionLoad v w.section?

/-- The workers the pass has found idle and may still claim. -/
def Pass.offered : Pass → List ℕ
  | choose _ idle _ => idle
  | claim _ worker _ => [worker]
  | _ => []

/-- The worker whose status the instruction writes without looking at what it is doing. -/
def Instr.frees (s : Master) : Instr → Option ℕ
  | completeWorker worker => some worker
  | enrollWorker inGrace worker _ =>
    if inGrace = true ∧ s.links.manager.workerStatusSnapshot worker = some .busy then none
    else some worker
  | reviveWorker worker => some worker
  | claimWorker _ worker _ => some worker
  | _ => none

/-- Such an instruction finds the worker without load. -/
def MeetsFree (w : MasterWorld) (_ : Outside) : Instr ⊕ Pass → Prop
  | .inl op => ∀ v ∈ op.frees w.shared, load v w = 0
  | .inr _ => True

structure OneTask (w : MasterWorld) : Prop where
  bounded : ∀ v, load v w ≤ 1
  idle : ∀ v ∈ w.shared.links.manager.getIdleWorkers, load v w = 0
  offered : ∀ p ∈ w.section?, ∀ v ∈ p.offered, load v w = 0

variable {v id : ℕ} {s s' : Master} {e : Outside} {w w' : MasterWorld} {clock : ℕ → Now}
  {spec : TaskSubmissionSpec}

theorem sentTo_cons (id worker : ℕ) (pairs : List (ℕ × ℕ)) :
    sentTo v ((id, worker) :: pairs) = sentTo v pairs + if worker = v then 1 else 0 := by
  simp [sentTo, count_cons]

/-! ### What an instruction does -/

theorem enterTask_frame (h : s.enterTask clock id spec = some s') :
    s'.links = s.links ∧ s'.unfinished = s.unfinished := by
  obtain ⟨metadata, -, h⟩ := bind_eq_some_iff.mp h
  obtain ⟨graph, -, rfl⟩ := map_eq_some_iff.mp h
  exact ⟨rfl, rfl⟩

theorem requeueTask_frame {worker : ℕ} (h : s.requeueTask clock worker id spec = some s') :
    s'.links = s.links ∧ s'.unfinished = s.unfinished.erase (id, worker) := by
  obtain ⟨graph, -, rfl⟩ := map_eq_some_iff.mp h
  exact ⟨rfl, rfl⟩

/-- The checks before a registration leave the worker table alone. -/
theorem manager_admitRegister (links : Liveness) (now : ℤ) (probes : List Bool) (conn worker : ℕ)
    (identity : WorkerIdentity) :
    (admitRegister now conn worker identity probes links).2.manager = links.manager := by
  obtain ⟨links₁, hsame, heq⟩ := admitRegister_spec links now probes conn worker identity
  rw [heq]
  split
  · rw [← hsame.manager, cleared]
    split
    · rfl
    · split <;> rfl
  · exact hsame.manager

theorem manager_checkDupRegisterDeadlines (links : Liveness) (now : ℤ) :
    (links.checkDupRegisterDeadlines now).manager = links.manager := by
  unfold Liveness.checkDupRegisterDeadlines
  generalize ((Table.pairs links.deferredRegisters).filter _).map fst = workers
  induction workers generalizing links with
  | nil => rfl
  | cons worker workers ih => exact ih _

variable {todo rest : List Instr} {op : Instr} {p' : Option Pass} {p : Pass} {i : ℕ}

/-- Reports and re-queues take away from what is unfinished, and sending adds to it. -/
theorem Instr.unfinished_exec (hsend : ∀ worker id, op ≠ .sendAssign worker id)
    (hexec : op.exec e s = some (.done s' todo)) : s'.unfinished.Sublist s.unfinished := by
  cases op with
  | sendAssign worker id => exact absurd rfl (hsend worker id)
  | _ =>
    simp only [exec] at hexec
    grind [Master.noteReport, Master.withManager, Master.completeTask, Master.failTask,
      map_eq_some_iff, → enterTask_frame, → requeueTask_frame, erase_sublist]

/-- **What an instruction does to the load**: it grows by claiming a worker, and shrinks by giving one
up. -/
theorem Instr.load_exec (hexec : op.exec e s = some (.done s' todo)) :
    sentTo v s'.unfinished + (todo.map (load v)).sum ≤ sentTo v s.unfinished + op.load v ∨
      ∃ merge id, op = .claimWorker merge v id ∧
        sentTo v s'.unfinished + (todo.map (load v)).sum = sentTo v s.unfinished + 1 := by
  cases op with
  | claimWorker merge worker id =>
    cases hexec
    by_cases hv : worker = v
    · subst hv
      cases merge <;> simp [load, Master.withManager]
    · cases merge <;> simp [load, Master.withManager, hv]
  | sendMergeTask worker id =>
    cases hexec
    split <;> simp [load]
  | sendAssign worker id =>
    cases hexec
    simp [Master.sendAssign, sentTo_cons, load]
  | _ =>
    have hzero : (todo.map (load v)).sum = 0 := by
      refine sum_eq_zero fun n hn => ?_
      obtain ⟨op', hop', rfl⟩ := mem_map.mp hn
      simp only [exec] at hexec
      grind [load, map_eq_some_iff]
    have hsub := unfinished_exec (by simp) hexec
    have hle : sentTo v s'.unfinished ≤ sentTo v s.unfinished := (hsub.map Prod.snd).count_le v
    exact .inl (by omega)

/-- **Whom an instruction makes idle**: a worker it frees, or one it gives up. -/
theorem Instr.idle_exec (hexec : op.exec e s = some (.done s' todo))
    (hidle : v ∈ s'.links.manager.getIdleWorkers) :
    v ∈ s.links.manager.getIdleWorkers ∨ v ∈ op.frees s ∨ ∃ id, op = .cancelTask v id := by
  cases op with
  | completeWorker worker | reviveWorker worker | claimWorker merge worker id =>
    cases hexec
    refine (mem_getIdleWorkers_update hidle).imp_right fun hv => .inl ?_
    exact congrArg some hv.1.symm
  | cancelTask worker id =>
    cases hexec
    rcases mem_getIdleWorkers_update hidle with hold | ⟨rfl, -⟩
    · exact .inl hold
    · exact .inr (.inr ⟨id, rfl⟩)
  | enrollWorker inGrace worker identity =>
    cases hexec
    cases inGrace with
    | false =>
      rcases mem_getIdleWorkers_registerWorker hidle with hold | rfl
      · exact .inl hold
      · exact .inr (.inl (by simp [frees]))
    | true =>
      rcases mem_getIdleWorkers_registerWorkerReconnect hidle with hold | ⟨rfl, hbusy⟩
      · exact .inl hold
      · exact .inr (.inl (by simp [frees, hbusy]))
  | setWorkerGrace worker | recordExit worker | recordDeath worker | timeOutWorker worker =>
    cases hexec
    refine .inl (mem_getIdleWorkers_of_update (fun info => ?_) hidle)
    simp [WorkerInfo.schedulable]
  | onHeartbeat worker =>
    cases hexec
    refine .inl (mem_getIdleWorkers_of_update (fun info => ?_) hidle)
    exact fun hsched => hsched
  | _ =>
    have hsame : s'.links.manager = s.links.manager := by
      simp only [exec] at hexec
      grind [Master.noteReport, Master.completeTask, Master.failTask, Master.sendAssign,
        map_eq_some_iff, → enterTask_frame, → requeueTask_frame, Liveness.bind,
        Liveness.endGrace, Liveness.dropConn, Liveness.renew, Liveness.rejectDeferredRegister,
        Liveness.onWorkerProbeAck, manager_admitRegister, manager_checkDupRegisterDeadlines]
    exact .inl (hsame ▸ hidle)

/-! ### What a step of the scheduling pass does -/

/-- The load moves along with the decisions, and grows when a worker is claimed. -/
theorem Pass.load_inside (hinside : p.inside e s = some (s', p')) :
    sentTo v s'.unfinished + sectionLoad v p' ≤ sentTo v s.unfinished + p.load v ∨
      ∃ id results, p = .claim id v results ∧
        sentTo v s'.unfinished + sectionLoad v p' = sentTo v s.unfinished + p.load v + 1 := by
  cases goes hinside with
  | claim id worker results =>
    by_cases hv : worker = v
    · subst hv
      simp [sectionLoad, load, sentTo, withManager]
      omega
    · simp [sectionLoad, load, sentTo, withManager, hv]
  | unconnected d todo =>
    have hle : sentTo v todo ≤ sentTo v (d :: todo) :=
      ((sublist_cons_self d todo).map Prod.snd).count_le v
    exact .inl (Nat.add_le_add_left hle _)
  | send id worker todo =>
    simp only [sectionLoad, elim_some, load, Master.sendAssign, sentTo_cons]
    omega
  | _ => exact .inl le_rfl

theorem Pass.idle_inside (hinside : p.inside e s = some (s', p'))
    (hidle : v ∈ s'.links.manager.getIdleWorkers) :
    v ∈ s.links.manager.getIdleWorkers ∧ ∀ id results, p ≠ .claim id v results := by
  cases p with
  | claim id worker results =>
    cases hinside
    have hne : worker ≠ v := by
      rintro rfl
      exact not_mem_getIdleWorkers_assignTask worker id hidle
    rcases mem_getIdleWorkers_update hidle with hold | ⟨rfl, -⟩
    · exact ⟨hold, by simp [hne]⟩
    · exact absurd rfl hne
  | _ =>
    have hsame : s'.links.manager = s.links.manager := by
      unfold inside at hinside
      split at hinside <;> grind [Master.sendAssign, Master.failTask]
    exact ⟨hsame ▸ hidle, by simp⟩

/-- The workers on offer were on offer before, or have just been found idle. -/
theorem Pass.offered_inside {q : Pass} (hinside : p.inside e s = some (s', some q)) (hv : v ∈ q.offered) :
    (v ∈ p.offered ∨ v ∈ s.links.manager.getIdleWorkers) ∧ ∀ id results, p ≠ .claim id v results := by
  unfold inside at hinside
  split at hinside <;> grind [offered]

/-! ### Whole runs -/

/-- A step keeps the invariant if for each worker it adds no load and offers it to nobody new, or leaves
it without load, or claims it. -/
theorem OneTask.of_effect (h : OneTask w)
    (heffect : ∀ v, (load v w' ≤ load v w ∧ (v ∈ w'.shared.links.manager.getIdleWorkers →
        v ∈ w.shared.links.manager.getIdleWorkers)) ∨ load v w' = 0 ∨
      (load v w = 0 ∧ load v w' ≤ 1 ∧ v ∉ w'.shared.links.manager.getIdleWorkers))
    (hoffered : ∀ p ∈ w'.section?, ∀ v ∈ p.offered, load v w' = 0) : OneTask w' := by
  refine ⟨fun v => ?_, fun v hidle => ?_, hoffered⟩
  · have hone := h.bounded v
    rcases heffect v with ⟨hle, -⟩ | hzero | ⟨-, hle, -⟩ <;> omega
  · rcases heffect v with ⟨hle, hold⟩ | hzero | ⟨-, -, hnot⟩
    · have := h.idle v (hold hidle)
      omega
    · exact hzero
    · exact absurd hidle hnot

theorem Handler.program_unloaded (g : Handler) : (g.program.map (Instr.load v)).sum = 0 := by
  refine sum_eq_zero fun n hn => ?_
  obtain ⟨op, hop, rfl⟩ := mem_map.mp hn
  cases g with
  | restartFailedTasks records =>
    obtain ⟨r, -, hop⟩ := mem_flatMap.mp hop
    simp only [mem_cons, not_mem_nil, or_false] at hop
    rcases hop with rfl | rfl | rfl <;> rfl
  | _ =>
    simp only [program, mem_cons, not_mem_nil, or_false] at hop
    rcases hop with rfl | rfl <;> rfl

theorem OneTask.call (h : OneTask w) (g : Handler) :
    OneTask { w with threads := w.threads ++ [g.program] } := by
  have hload : ∀ v, load v { w with threads := w.threads ++ [g.program] } = load v w := by
    intro v
    rw [load, weigh_call, g.program_unloaded]
    rfl
  refine h.of_effect (fun v => .inl ⟨(hload v).le, fun hidle => hidle⟩) fun p hp v hv => ?_
  rw [hload]
  exact h.offered p hp v hv

theorem OneTask.exec (h : OneTask w)
    (hthread : w.threads[i]? = some (op :: rest)) (hmutex : op.free = true ∨ w.holder = none)
    (hmeet : ∀ v ∈ op.frees w.shared, load v w = 0)
    (hexec : op.exec e w.shared = some (.done s' todo)) :
    OneTask { w with shared := s', threads := w.threads.set i (todo ++ rest) } := by
  have hweigh : ∀ v, load v { w with shared := s', threads := w.threads.set i (todo ++ rest) } +
      (sentTo v w.shared.unfinished + op.load v) =
      load v w + (sentTo v s'.unfinished + (todo.map (Instr.load v)).sum) := by
    intro v
    have := World.weigh_set (f := Instr.load v) hthread (todo ++ rest) s' w.holder
    simp only [map_append, sum_append, map_cons, sum_cons] at this
    simp only [load, World.section?]
    omega
  refine h.of_effect (fun v => ?_) fun p hp v hv => ?_
  · have hv := hweigh v
    rcases load_exec (v := v) hexec with hle | ⟨merge, id, rfl, heq⟩
    · by_cases hidle : v ∈ s'.links.manager.getIdleWorkers
      · rcases idle_exec hexec hidle with hold | hfree | ⟨id, rfl⟩
        · exact .inl ⟨by omega, fun _ => hold⟩
        · have := hmeet v hfree
          exact .inr (.inl (by omega))
        -- the merge task that is given up was all the load there was
        cases hexec
        have hone := h.bounded v
        have hop : Instr.load v (.cancelTask v id) = 1 := if_pos rfl
        have hleft : sentTo v w.shared.unfinished + (List.map (Instr.load v) []).sum =
            sentTo v w.shared.unfinished := rfl
        exact .inr (.inl (by dsimp only [withManager] at hv ⊢; omega))
      · exact .inl ⟨by omega, fun hidle' => absurd hidle' hidle⟩
    · have hzero := hmeet v rfl
      cases hexec
      exact .inr (.inr ⟨hzero, by omega, not_mem_getIdleWorkers_assignTask v id⟩)
  · -- beside an open section no worker is claimed
    rcases hmutex with hfree | hnone
    · have hv := hweigh v
      have hzero := h.offered p hp v ‹_›
      rcases load_exec (v := v) hexec with hle | ⟨merge, id, rfl, -⟩
      · omega
      · cases hfree
    · simp [World.section?, hnone] at hp

theorem OneTask.enter (h : OneTask w) (hthread : w.threads[i]? = some (op :: rest)) (hnone : w.holder = none)
    (hexec : op.exec e w.shared = some (.enter p)) :
    OneTask { w with holder := some (i, p), threads := w.threads.set i rest } := by
  have hload : ∀ v, load v { w with holder := some (i, p), threads := w.threads.set i rest } ≤
      load v w := by
    intro v
    have := World.weigh_set (f := Instr.load v) hthread rest w.shared (some (i, p))
    have hsection : sectionLoad v w.section? = 0 := by simp [World.section?, hnone, sectionLoad]
    have hpass : Pass.load v p = 0 := by
      rw [enter_eq hexec]
      rfl
    simp only [load, World.section?, map_some, sectionLoad, elim_some] at *
    rw [map_cons, sum_cons] at this
    omega
  refine h.of_effect (fun v => .inl ⟨hload v, fun hidle => hidle⟩) fun q hq v hv => ?_
  cases hq
  rw [enter_eq hexec] at hv
  cases hv

theorem OneTask.inside (h : OneTask w)
    (hholder : w.holder = some (i, p)) (hinside : p.inside e w.shared = some (s', p')) :
    OneTask { w with shared := s', holder := p'.map fun q => (i, q) } := by
  have hsection : section? { w with shared := s', holder := p'.map fun q => (i, q) } = p' := by
    cases p' <;> rfl
  have hold : w.section? = some p := by rw [section?, hholder]; rfl
  have hload : ∀ v, load v { w with shared := s', holder := p'.map fun q => (i, q) } +
      (sentTo v w.shared.unfinished + p.load v) =
      load v w + (sentTo v s'.unfinished + sectionLoad v p') := by
    intro v
    rw [load, hsection, load, hold]
    simp only [sectionLoad, weigh, elim_some]
    omega
  refine h.of_effect (fun v => ?_) fun q hq v hv => ?_
  · have hv := hload v
    rcases load_inside (v := v) hinside with hle | ⟨id, results, rfl, heq⟩
    · exact .inl ⟨by omega, fun hidle => (idle_inside hinside hidle).1⟩
    · have hzero := h.offered _ hold v (mem_singleton_self v)
      exact .inr (.inr ⟨hzero, by omega, fun hidle => (idle_inside hinside hidle).2 id results rfl⟩)
  · rw [hsection] at hq
    cases hq
    have hv' := hload v
    obtain ⟨hfound, hclaim⟩ := offered_inside hinside hv
    have hzero : load v w = 0 := hfound.elim (h.offered p hold v) (h.idle v)
    rcases load_inside (v := v) hinside with hle | ⟨id, results, rfl, -⟩
    · omega
    · exact absurd rfl (hclaim id results)

theorem oneTask_init : OneTask init := by
  refine ⟨fun v => Nat.zero_le 1, fun v _ => rfl, fun p hp => ?_⟩
  cases hp

/-- **One task per worker.**  Along every interleaving in which a report, a revival, a registration that
makes idle, and a backup or merge request meet a worker without load, no worker that something unfinished
was sent to is offered to the scheduler, and no two unfinished assignments are with one worker. -/
theorem one_task_per_worker (acts : List MasterAction) (w : MasterWorld)
    (hok : masterAgent.Meets MeetsFree init acts)
    (hrun : run masterAgent.step init acts = some w) :
    (∀ t v, (t, v) ∈ w.shared.unfinished → v ∉ w.shared.links.manager.getIdleWorkers) ∧
      (w.shared.unfinished.map snd).Nodup := by
  have hone : OneTask w := by
    refine run_meets (P := masterAgent) (I := OneTask) (C := MeetsFree) ?_ oneTask_init hok hrun
    intro w a w' h hmeet hstep
    rcases step_cases hstep with ⟨g, -, rfl⟩ | ⟨i, e, ha, hcase⟩
    · exact h.call g
    rcases hcase with ⟨p, s, p', hholder, -, hinside, rfl⟩ | ⟨op, rest, hexec, hcase⟩
    · exact h.inside hholder hinside
    · rcases hcase with ⟨s, todo, hdone, rfl⟩ | ⟨p, henter, hnone, rfl⟩
      · exact h.exec hexec.thread hexec.mutex (hmeet i e _ ha hexec.next) hdone
      · exact h.enter hexec.thread hnone henter
  have hsent : ∀ v, sentTo v w.shared.unfinished ≤ load v w := by
    intro v
    rw [load]
    omega
  refine ⟨fun t v ht hidle => ?_, nodup_iff_count_le_one.mpr fun v => ?_⟩
  · have hpos : 0 < sentTo v w.shared.unfinished :=
      count_pos_iff.mpr (mem_map.mpr ⟨(t, v), ht, rfl⟩)
    have := hone.idle v hidle
    have := hsent v
    omega
  · exact (hsent v).trans (hone.bounded v)

instance (w : MasterWorld) (e : Outside) : DecidablePred (MeetsFree w e)
  | .inl op => @decidableForallMem _ _ (fun v => instDecidableEqNat (load v w) 0) (op.frees w.shared)
  | .inr _ => instDecidableTrue

/-- The heartbeat check finds worker 1 silent, and then a heartbeat of it arrives. -/
def revivedRun : List MasterAction :=
  [.call .heartbeatCheck, .step 2 {}, .step 2 {}, .step 2 { seconds := 1000 }, .step 2 {},
    .call (.heartbeat 1), .step 3 { seconds := 1000 }, .step 3 {}, .step 3 {}]

theorem one_task_per_worker_twoTasks : ∃ w, run masterAgent.step init
      (assignedRun ++ reportedRun 2 1 ++ decidedRun 3 2 ++ sentRun 3) = some w ∧
    w.shared.unfinished = [(2, 1)] ∧
    ((∀ t v, (t, v) ∈ w.shared.unfinished → v ∉ w.shared.links.manager.getIdleWorkers) ∧
      (w.shared.unfinished.map snd).Nodup) := by
  have hmeets : masterAgent.Meets MeetsFree init
      (assignedRun ++ reportedRun 2 1 ++ decidedRun 3 2 ++ sentRun 3) :=
    meets_of_decide (by decide +kernel)
  exact exists_and_of_decide (by decide +kernel) fun w hrun _ => one_task_per_worker _ w hmeets hrun

/-- **A revived worker is idle with its task unfinished**, and is given a second one. -/
theorem revived_worker_idle : ∃ w₁ w₂,
    run masterAgent.step MasterWorld.init (assignedRun ++ revivedRun) = some w₁ ∧
    w₁.shared.unfinished = [(1, 1)] ∧ w₁.shared.links.manager.getIdleWorkers = [1] ∧
    run masterAgent.step w₁ (decidedRun 4 2 ++ sentRun 4) = some w₂ ∧
    w₂.shared.unfinished = [(2, 1), (1, 1)] := by
  have hseen : ((run masterAgent.step MasterWorld.init (assignedRun ++ revivedRun)).bind fun w₁ =>
      (run masterAgent.step w₁ (decidedRun 4 2 ++ sentRun 4)).map fun w₂ =>
        (w₁.shared.unfinished, w₁.shared.links.manager.getIdleWorkers, w₂.shared.unfinished)) =
      some ([(1, 1)], [1], [(2, 1), (1, 1)]) := by
    decide +kernel
  obtain ⟨w₁, hrun₁, hseen⟩ := bind_eq_some_iff.mp hseen
  obtain ⟨w₂, hrun₂, hw⟩ := map_eq_some_iff.mp hseen
  rw [Prod.mk.injEq, Prod.mk.injEq] at hw
  exact ⟨w₁, w₂, hrun₁, hw.1, hw.2.1, hrun₂, hw.2.2⟩

end Fly.Agent
