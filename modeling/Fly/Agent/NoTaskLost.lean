import Fly.Agent.TaskMoves

/-!
# No task is lost

Outside the scheduling pass the task table and the graph should agree about every task: pending tasks
are in the graph and no others; a running task names its worker.

The pass takes a task out of the graph when it decides on it, and records it as running at the very end
of `assign_task_to_worker`.  In between that function looks up the connection of the worker, and returns
when there is none: the task stays pending and is in no queue any more.

* `InOrder` — the agreement;
* `no_task_lost` — **it holds whenever the mutex is free, along every interleaving in which the lookup
  finds a connection each time**;
* `task_lost` — a disconnect between decision and lookup loses the task.
-/

namespace Fly.Agent

open Fly.Lib Fly.Task Option List MasterWorld Pass Prod

/-- Task table and graph agree about every known task. -/
structure InOrder (s : Master) : Prop where
  pending : ∀ t info, s.metadata.getTask t = some info → (info.status = .pending ↔ s.graph.Holds t)
  running : ∀ t info, s.metadata.getTask t = some info → info.status = .running →
    info.assignedWorkerId ≠ 0 ∧ ¬s.graph.Holds t
  ended : ∀ t info, s.metadata.getTask t = some info → info.status.terminal = true → ¬s.graph.Holds t

/-- Whenever `assign_task_to_worker` looks up a connection, the worker has one. -/
def Connected (w : MasterWorld) (_ : Outside) : Instr ⊕ Pass → Prop
  | .inr (.assign ((_, worker) :: _)) => worker ∈ w.shared.links.workerToConn
  | _ => True

/-- A pending task outside the graph is in the hands of the scheduling pass. -/
def Accounted (s : Master) (section? : Option Pass) : Prop :=
  ∀ t info, s.metadata.getTask t = some info → info.status = .pending → ¬s.graph.Holds t →
    ∃ p ∈ section?, t ∈ p.hand.map fst

variable {s s' : Master} {e : Outside}

theorem inOrder_of_accounted (hp : Placed s) (h : Accounted s none) : InOrder s := by
  refine ⟨fun t info hinfo => ⟨fun hstatus => ?_, hp.held t info hinfo⟩,
    fun t info hinfo hrun => ⟨hp.running t info hinfo hrun, fun hholds => ?_⟩,
    fun t info hinfo hterm hholds => ?_⟩
  · by_contra hnot
    obtain ⟨p, hp, -⟩ := h t info hinfo hstatus hnot
    cases hp
  · have := hp.held t info hinfo hholds
    rw [hrun] at this
    cases this
  · have := hp.held t info hinfo hholds
    rw [this] at hterm
    cases hterm

variable {p' : Option Pass}

/-- A decision leaves the hands of the pass only when it is recorded, or when its worker has no
connection. -/
theorem Pass.hand_kept {p : Pass} {t : ℕ} (ht : t ∈ p.hand.map fst)
    (hinside : p.inside e s = some (s', p')) :
    (∃ q ∈ p', t ∈ q.hand.map fst) ∨ (∃ worker, p.move = .record t worker) ∨
      ∃ worker todo, p = .assign ((t, worker) :: todo) ∧ worker ∉ s.links.workerToConn := by
  cases goes hinside with
  | noReady | ready | noIdle | idle | noChoice | choice | claim | connected | send => exact .inl ⟨_, rfl, ht⟩
  | remove id worker results =>
    refine .inl ⟨_, rfl, ?_⟩
    show t ∈ (results ++ [(id, worker)]).map fst
    rw [map_append]
    exact mem_append_left _ ht
  | unconnected d todo hconn =>
    rcases mem_cons.mp ht with rfl | ht
    · exact .inr (.inr ⟨d.2, todo, rfl, hconn⟩)
    · exact .inl ⟨_, rfl, ht⟩
  | record id worker todo =>
    rcases mem_cons.mp ht with rfl | ht
    · exact .inr (.inl ⟨worker, rfl⟩)
    · exact .inl ⟨_, rfl, ht⟩
  | _ => cases ht

theorem Accounted.exec (hp : Placed s) {section? : Option Pass} (h : Accounted s section?)
    {op : Instr} {todo : List Instr} (hexec : op.exec e s = some (.done s' todo)) :
    Accounted s' section? := by
  intro t info hinfo hstatus hnot
  have hd := Instr.describes hp.graph hexec
  rcases hd.seen hinfo with ⟨hold, hiff | htake⟩ | ⟨-, hholds⟩ | ⟨-, hterm, -⟩ | ⟨w, -, hrun, -⟩
  · exact h t info hold hstatus fun hholds => hnot (hiff.mpr hholds)
  · exact absurd htake (op.move_ne_take s t)
  · exact absurd hholds hnot
  · rw [hstatus] at hterm
    cases hterm
  · rw [hstatus] at hrun
    cases hrun

theorem Accounted.inside (hp : Placed s) {p : Pass} (h : Accounted s (some p))
    (hok : ∀ id worker todo, p = .assign ((id, worker) :: todo) → worker ∈ s.links.workerToConn)
    (hinside : p.inside e s = some (s', p')) : Accounted s' p' := by
  intro t info hinfo hstatus hnot
  have hd := describes hp.graph hinside
  rcases hd.seen hinfo with ⟨hold, hplace⟩ | ⟨-, hholds⟩ | ⟨-, hterm, -⟩ | ⟨w, -, hrun, -⟩
  · rcases hplace with hiff | htake
    · -- it was in hand before, and has not been recorded since
      obtain ⟨q, hq, ht⟩ := h t info hold hstatus fun hholds => hnot (hiff.mpr hholds)
      cases hq
      rcases hand_kept ht hinside with hkept | ⟨worker, hmove⟩ | ⟨worker, todo, rfl, hno⟩
      · exact hkept
      · have htable := hd.table
        rw [hmove] at htable
        have hafter := htable t
        rw [if_pos rfl, hinfo, hold, map_some, some.injEq] at hafter
        rw [hafter] at hstatus
        cases hstatus
      · exact absurd (hok t worker todo rfl) hno
    · -- it has just been taken out of the graph
      obtain ⟨worker, results, rfl⟩ := eq_remove htake
      cases hinside
      exact ⟨_, rfl, by simp [hand]⟩
  · exact absurd hholds hnot
  · rw [hstatus] at hterm
    cases hterm
  · rw [hstatus] at hrun
    cases hrun

/-! ### Whole runs -/

/-- **No task is lost.**  Along every interleaving of the handlers in which each lookup of
`assign_task_to_worker` finds a connection, task table and graph agree whenever the mutex is free. -/
theorem no_task_lost (acts : List MasterAction) (w : MasterWorld)
    (hok : masterAgent.Meets Connected init acts)
    (hrun : run masterAgent.step init acts = some w) (hfree : w.holder = none) :
    InOrder w.shared := by
  have hinv : Ordered w.shared w.section? ∧ Accounted w.shared w.section? := by
    refine Threaded.invariant (P := masterAgent)
      (I := fun s k => Ordered s k ∧ Accounted s k) (C := Connected)
      ?_ ?_ ?_ ⟨ordered_init, ?_⟩ hok hrun
    · rintro w e op s' todo ⟨hord, hacc⟩ hmutex - hexec
      exact ⟨hord.exec hmutex hexec, hacc.exec hord.placed hexec⟩
    · rintro e s op p ⟨hord, hacc⟩ henter
      refine ⟨hord.enter henter, fun t info hinfo hstatus hnot => ?_⟩
      obtain ⟨q, hq, -⟩ := hacc t info hinfo hstatus hnot
      cases hq
    · rintro w e p s' p' ⟨hord, hacc⟩ hconn hinside
      refine ⟨hord.inside hinside, hacc.inside hord.placed ?_ hinside⟩
      rintro id worker todo rfl
      exact hconn
    · intro t info hinfo
      simp [init, TaskManager.getTask] at hinfo
  have hsection : w.section? = none := by
    rw [World.section?, hfree]
    rfl
  rw [hsection] at hinv
  exact inOrder_of_accounted hinv.1.placed hinv.2

/-- The scheduling pass decides on task 1 for worker 1, which is disconnected before its connection is
looked up. -/
def disconnectedRun : List MasterAction :=
  registeredRun ++ decidedRun 1 1 ++
    [.call (.disconnect 11), .step 2 {}, .step 1 {}, .step 1 {}, .step 1 {}, .step 1 {}]

instance (w : MasterWorld) (e : Outside) : DecidablePred (Connected w e) := by
  intro x
  unfold Connected
  split <;> infer_instance

theorem no_task_lost_singleTask : ∃ w, run masterAgent.step init assignedRun = some w ∧
    w.shared.metadata.statusOf 1 = some .running ∧ InOrder w.shared := by
  have hmeets : masterAgent.Meets Connected init assignedRun :=
    Threaded.meets_of_decide (by decide +kernel)
  obtain ⟨w, hrun, hfree, hstatus⟩ := exists_of_decide (o := run masterAgent.step init assignedRun)
    (p := fun w => w.holder = none ∧ w.shared.metadata.statusOf 1 = some .running) (by decide +kernel)
  exact ⟨w, hrun, hstatus, no_task_lost _ w hmeets hrun hfree⟩

/-- **A disconnect during the scheduling pass loses the task**: the mutex is free, task 1 is pending and
in no queue. -/
theorem task_lost : ∃ w, run masterAgent.step init disconnectedRun = some w ∧
    w.holder = none ∧ w.shared.metadata.statusOf 1 = some .pending ∧ ¬w.shared.graph.Holds 1 ∧
    ¬InOrder w.shared := by
  obtain ⟨w, hrun, hfree, hstatus, hnot⟩ := exists_of_decide
    (o := run masterAgent.step init disconnectedRun)
    (p := fun w => w.holder = none ∧ w.shared.metadata.statusOf 1 = some .pending ∧
      ¬w.shared.graph.Holds 1) (by decide +kernel)
  refine ⟨w, hrun, hfree, hstatus, hnot, fun horder => ?_⟩
  obtain ⟨info, hinfo, hpending⟩ := map_eq_some_iff.mp hstatus
  exact hnot ((horder.pending 1 info hinfo).mp hpending)

end Fly.Agent
