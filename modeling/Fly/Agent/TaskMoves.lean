import Fly.Agent.Master
import Fly.Task.Readiness

/-!
# What the steps of the master do to a task

A step of the master touches the graph and the task table in one of a few ways (`TaskMove`).  Which one
is read off the instruction or the place in the scheduling pass; what it means for the two containers is
said once here (`Instr.describes`, `Pass.describes`), and everything about the life of tasks follows from
that.

* `TaskMove` — the moves; `Instr.move`, `Pass.move` — who makes which;
* `step_describes` — **what an action of the master does to the tasks**;
* `Placed`, `Coherent` — what always holds: a known task in the graph is pending; a task the scheduling
  pass has decided on has left the graph and is still pending; a running task names its worker;
* `ordered_run` — they hold along every interleaving, without any condition.
-/

namespace Fly.Agent

open Fly.Lib Fly.Task List Option TaskManager Instr MasterWorld Pass List.Sublist

/-! ### The moves -/

/-- What a step does to the graph and the task table. -/
inductive TaskMove where
  | none
  | enter (id : ℕ) (spec : TaskSubmissionSpec)
  | forget (id : ℕ)
  | finish (id : ℕ)
  | requeue (id : ℕ)
  | take (id : ℕ)
  | record (id worker : ℕ)

namespace TaskMove

def HeldAfter (held : ℕ → Prop) : TaskMove → ℕ → Prop
  | enter id _, t => t = id ∨ held t
  | requeue id, t => t = id ∨ held t
  | finish id, t => t ≠ id ∧ held t
  | take id, t => t ≠ id ∧ held t
  | _, t => held t

def TableAfter (m m' : TaskManager) : TaskMove → Prop
  | enter id spec => m.getTask id = .none ∧
      ∀ t, m'.getTask t = if t = id then some { submission := spec } else m.getTask t
  | forget id => ∀ t, m'.getTask t = if t = id then .none else m.getTask t
  | finish id => TaskManager.Ends m m' id
  | requeue id => ∀ t, m'.getTask t =
      if t = id then (m.getTask id).map fun info =>
        { info with status := .pending, assignedWorkerId := 0 }
      else m.getTask t
  | record id worker => ∀ t, m'.getTask t =
      if t = id then (m.getTask id).map fun info =>
        { info with status := .running, assignedWorkerId := worker }
      else m.getTask t
  | _ => ∀ t, m'.getTask t = m.getTask t

structure Describes (move : TaskMove) (s s' : Master) : Prop where
  graph : s'.graph.GraphInv
  held : ∀ t, s'.graph.Holds t ↔ move.HeldAfter s.graph.Holds t
  table : move.TableAfter s.metadata s'.metadata

variable {s s' : Master}

section

variable (h : s.graph.GraphInv) {clock : ℕ → Now} {id : ℕ} {spec : TaskSubmissionSpec}

include h

theorem describes_none (hgraph : s'.graph = s.graph)
    (hmeta : s'.metadata = s.metadata) : none.Describes s s' := by
  refine ⟨hgraph ▸ h, fun t => ?_, fun t => ?_⟩
  · rw [hgraph]
    exact Iff.rfl
  · rw [hmeta]

/-- A call of the graph that only moves tasks between ready and pending. -/
theorem describes_mark (op : GraphOp) (hstep : op.step s.graph = some s'.graph)
    (hop : op.adds = .none ∧ ∀ id, op ≠ .removeTask id)
    (hmeta : s'.metadata = s.metadata) : none.Describes s s' := by
  refine ⟨h.step hstep, fun t => ?_, fun t => by rw [hmeta]⟩
  rw [h.holds_step hstep]
  cases op with
  | addTask now id inputs reqs => exact absurd hop.1 (by simp [GraphOp.adds])
  | removeTask id => exact absurd rfl (hop.2 id)
  | _ => exact Iff.rfl

theorem describes_failTask (e : Outside) (id : ℕ) (error : String) :
    (finish id).Describes s (s.failTask e id error) :=
  ⟨(h.removeTask id).1, (h.removeTask id).2, ends_failTask _ _ id error⟩

theorem describes_enterTask (hstep : s.enterTask clock id spec = some s') :
    (enter id spec).Describes s s' := by
  obtain ⟨metadata, hcreate, hstep⟩ := bind_eq_some_iff.mp hstep
  obtain ⟨graph, hadd, rfl⟩ := map_eq_some_iff.mp hstep
  exact ⟨(h.addTask hadd).1, (h.addTask hadd).2, getTask_createTask hcreate⟩

theorem describes_requeueTask {worker : ℕ} (hstep : s.requeueTask clock worker id spec = some s') :
    (requeue id).Describes s s' := by
  obtain ⟨graph, hadd, rfl⟩ := map_eq_some_iff.mp hstep
  obtain ⟨hremoved, hless⟩ := h.removeTask id
  obtain ⟨hadded, hmore⟩ := hremoved.addTask hadd
  refine ⟨hadded, fun t => ?_, getTask_unassignTask id⟩
  show graph.Holds t ↔ t = id ∨ s.graph.Holds t
  rw [hmore, hless]
  tauto

end

/-- **What is seen of a known task after a move**: its old record, in the same place or just taken out
of the graph; a fresh place in the graph; its end; or the worker it was given to. -/
theorem Describes.seen {move : TaskMove} (hd : move.Describes s s') {t : ℕ} {info : TaskMetadata}
    (hinfo : s'.metadata.getTask t = some info) :
    (s.metadata.getTask t = some info ∧ ((s'.graph.Holds t ↔ s.graph.Holds t) ∨ move = .take t)) ∨
    (info.status = .pending ∧ s'.graph.Holds t) ∨
    (move = .finish t ∧ info.status.terminal = true ∧ ¬s'.graph.Holds t) ∨
    (∃ w, move = .record t w ∧ info.status = .running ∧ info.assignedWorkerId = w ∧
      (s'.graph.Holds t ↔ s.graph.Holds t)) := by
  obtain ⟨-, hheld, htable⟩ := hd
  have hheld := hheld t
  cases move with
  | none => exact .inl ⟨htable t ▸ hinfo, .inl hheld⟩
  | take id =>
    refine .inl ⟨htable t ▸ hinfo, ?_⟩
    by_cases ht : t = id
    · exact .inr (by rw [ht])
    · exact .inl (hheld.trans (and_iff_right ht))
  | enter id spec =>
    rw [htable.2] at hinfo
    by_cases ht : t = id
    · rw [if_pos ht, Option.some.injEq] at hinfo
      exact .inr (.inl ⟨hinfo ▸ rfl, hheld.mpr (.inl ht)⟩)
    · rw [if_neg ht] at hinfo
      exact .inl ⟨hinfo, .inl (hheld.trans (or_iff_right ht))⟩
  | forget id =>
    rw [htable] at hinfo
    split at hinfo
    · cases hinfo
    · exact .inl ⟨hinfo, .inl hheld⟩
  | finish id =>
    by_cases ht : t = id
    · refine .inr (.inr (.inl ⟨by rw [ht], (htable.task info (ht ▸ hinfo)).1, fun h => ?_⟩))
      exact (hheld.mp h).1 ht
    refine .inl ⟨?_, .inl (hheld.trans (and_iff_right ht))⟩
    rcases htable.others t ht with heq | ⟨hnone, -⟩
    · exact heq ▸ hinfo
    · rw [hnone] at hinfo
      cases hinfo
  | requeue id =>
    rw [htable] at hinfo
    by_cases ht : t = id
    · rw [if_pos ht] at hinfo
      obtain ⟨old, -, rfl⟩ := map_eq_some_iff.mp hinfo
      exact .inr (.inl ⟨rfl, hheld.mpr (.inl ht)⟩)
    · rw [if_neg ht] at hinfo
      exact .inl ⟨hinfo, .inl (hheld.trans (or_iff_right ht))⟩
  | record id worker =>
    rw [htable] at hinfo
    by_cases ht : t = id
    · rw [if_pos ht] at hinfo
      obtain ⟨old, -, rfl⟩ := map_eq_some_iff.mp hinfo
      exact .inr (.inr (.inr ⟨worker, by rw [ht], rfl, rfl, hheld⟩))
    · rw [if_neg ht] at hinfo
      exact .inl ⟨hinfo, .inl hheld⟩

end TaskMove

open TaskMove (describes_none describes_failTask describes_mark)

/-! ### The move of each step -/

def Instr.move (s : Master) : Instr → TaskMove
  | enterTask id spec => .enter id spec
  | forgetTask id => .forget id
  | completeTask id => .finish id
  | failTask id _ => .finish id
  | failIfRunning id => if s.metadata.statusOf id = some .running then .finish id else .none
  | requeueTask _ id _ => .requeue id
  | _ => .none

def Pass.move : Pass → TaskMove
  | remove id _ _ => .take id
  | record id worker _ => .record id worker
  | failUnresolvable (id :: _) => .finish id
  | failDeadlocked (id :: _) => .finish id
  | _ => .none

variable {s s' : Master} {e : Outside}

variable {op : Instr} {todo : List Instr} {p : Pass} {p' section? : Option Pass} {id worker : ℕ}
  {w w' : MasterWorld} {a : MasterAction}

theorem Instr.describes (h : s.graph.GraphInv)
    (hexec : op.exec e s = some (.done s' todo)) : (op.move s).Describes s s' := by
  cases op with
  | enterTask id spec =>
    obtain ⟨u, hu, heq⟩ := map_eq_some_iff.mp hexec
    cases heq
    exact TaskMove.describes_enterTask h hu
  | requeueTask worker id spec =>
    obtain ⟨u, hu, heq⟩ := map_eq_some_iff.mp hexec
    cases heq
    exact TaskMove.describes_requeueTask h hu
  | forgetTask id =>
    cases hexec
    exact ⟨h, fun t => Iff.rfl, getTask_unfile id⟩
  | completeTask id =>
    cases hexec
    exact ⟨(h.removeTask id).1, (h.removeTask id).2, ends_completed _ _ id⟩
  | failTask id error =>
    cases hexec
    exact describes_failTask h e id error
  | failIfRunning id =>
    cases hexec
    dsimp only [move]
    split
    · exact describes_failTask h e id _
    · exact describes_none h rfl rfl
  | markDataReady path =>
    cases hexec
    exact describes_mark h (.markDataReady e.clock path) rfl ⟨rfl, by simp⟩ rfl
  | markDataRemoved path =>
    cases hexec
    exact describes_mark h (.markDataRemoved path) rfl ⟨rfl, by simp⟩ rfl
  | setLocalityHint id =>
    cases hexec
    split
    · exact describes_none h rfl rfl
    · exact describes_mark h (.setTaskLocalityHint id e.hint) rfl ⟨rfl, by simp⟩ rfl
  | beginPass => cases hexec
  | onDisconnect conn | replayDeferredRegister worker | readTask worker id =>
    simp only [exec] at hexec
    split at hexec
    all_goals
      cases hexec
      exact describes_none h rfl rfl
  | awaitDrain =>
    simp only [exec] at hexec
    split at hexec
    · cases hexec
      exact describes_none h rfl rfl
    · split at hexec
      all_goals
        cases hexec
        try exact describes_none h rfl rfl
  | _ =>
    cases hexec
    exact describes_none h rfl rfl

/-- **Everything a step of the pass can do.** -/
inductive Pass.Goes (e : Outside) (s : Master) : Pass → Master → Option Pass → Prop where
  | noReady : ∀ results, Goes e s (.readReady results) s (some (.assign results))
  | ready : ∀ results, Goes e s (.readReady results) s (some (.readIdle s.graph.getReadyTasks results))
  | noIdle : ∀ ready results, Goes e s (.readIdle ready results) s (some (.assign results))
  | idle : ∀ ready results, Goes e s (.readIdle ready results) s
      (some (.choose ready s.links.manager.getIdleWorkers results))
  | noChoice : ∀ ready idle results, Goes e s (.choose ready idle results) s (some (.assign results))
  | choice : ∀ ready idle results, ∀ id ∈ ready, ∀ worker ≠ 0,
      Goes e s (.choose ready idle results) s (some (.claim id worker results))
  | claim : ∀ id worker results, Goes e s (.claim id worker results)
      (s.withManager (s.links.manager.assignTask worker id)) (some (.remove id worker results))
  | remove : ∀ id worker results, Goes e s (.remove id worker results)
      { s with graph := s.graph.removeTask id } (some (.readReady (results ++ [(id, worker)])))
  | assigned : Goes e s (.assign []) s (some .readPending)
  | unconnected : ∀ d todo, d.2 ∉ s.links.workerToConn →
      Goes e s (.assign (d :: todo)) s (some (.assign todo))
  | connected : ∀ d todo, Goes e s (.assign (d :: todo)) s (some (.send d.1 d.2 todo))
  | send : ∀ id worker todo,
      Goes e s (.send id worker todo) (s.sendAssign id worker) (some (.record id worker todo))
  | record : ∀ id worker todo, Goes e s (.record id worker todo)
      { s with metadata := s.metadata.assignTask id worker } (some (.assign todo))
  | noPending : Goes e s .readPending s (some .readSwitch)
  | pending : Goes e s .readPending s (some (.checkPending s.graph.getPendingTasks))
  | unresolvable : ∀ pending, Goes e s (.checkPending pending) s (some (.failUnresolvable pending))
  | resolvable : ∀ pending, Goes e s (.checkPending pending) s (some .readSwitch)
  | resolved : Goes e s (.failUnresolvable []) s (some .readSwitch)
  | failUnresolvable : ∀ id todo error,
      Goes e s (.failUnresolvable (id :: todo)) (s.failTask e id error) (some (.failUnresolvable todo))
  | switchOn : Goes e s .readSwitch s
      (some (.findDeadlocked (s.metadata.hasTasksWithStatus .running) s.graph.getReadyTasks []))
  | switchOff : Goes e s .readSwitch s none
  | found : ∀ running deadlocked,
      Goes e s (.findDeadlocked running [] deadlocked) s (some (.failDeadlocked deadlocked))
  | skip : ∀ running id todo deadlocked, Goes e s (.findDeadlocked running (id :: todo) deadlocked) s
      (some (.findDeadlocked running todo deadlocked))
  | deadlock : ∀ running id todo deadlocked, Goes e s (.findDeadlocked running (id :: todo) deadlocked) s
      (some (.findDeadlocked running todo (deadlocked ++ [id])))
  | failDeadlocked : ∀ id todo error,
      Goes e s (.failDeadlocked (id :: todo)) (s.failTask e id error) (some (.failDeadlocked todo))
  | failed : Goes e s (.failDeadlocked []) s none

theorem Pass.goes (hinside : p.inside e s = some (s', p')) : Goes e s p s' p' := by
  unfold inside at hinside
  split at hinside
  case h_3 =>
    split at hinside
    · cases hinside
      exact .noChoice ..
    · obtain ⟨⟨hid, -, hworker⟩, hinside⟩ := ite_none_right_eq_some.mp hinside
      cases hinside
      exact .choice _ _ _ _ hid _ hworker
  case h_7 =>
    split at hinside
    · next hnone =>
      cases hinside
      exact .unconnected _ _ (AList.lookup_eq_none.mp hnone)
    · cases hinside
      exact .connected ..
  all_goals
    cases hinside
    try split
  all_goals constructor

theorem Pass.describes (h : s.graph.GraphInv)
    (hinside : p.inside e s = some (s', p')) : p.move.Describes s s' := by
  cases goes hinside with
  | remove id => exact ⟨(h.removeTask id).1, (h.removeTask id).2, fun t => rfl⟩
  | record id worker => exact ⟨h, fun t => Iff.rfl, getTask_assignTask id worker⟩
  | failUnresolvable id todo error | failDeadlocked id todo error =>
    exact describes_failTask h e id error
  | _ => exact describes_none h rfl rfl

/-! ### Who makes which move -/

/-- The instructions that make a move, the ends of tasks apart. -/
theorem Instr.move_cases (op : Instr) (s : Master) :
    op.move s = .none ∨ (∃ id spec, op = .enterTask id spec ∧ op.move s = .enter id spec) ∨
      (∃ id, op.move s = .forget id) ∨ (∃ id, op.move s = .finish id) ∨
      ∃ worker id spec, op = .requeueTask worker id spec ∧ op.move s = .requeue id := by
  cases op with
  | failIfRunning id =>
    dsimp only [move]
    split <;> simp
  | _ => simp [move]

theorem Instr.move_ne_take (op : Instr) (s : Master) (id : ℕ) : op.move s ≠ .take id := by
  have := op.move_cases s
  grind

theorem Instr.move_ne_record (op : Instr) (s : Master) (id worker : ℕ) : op.move s ≠ .record id worker := by
  have := op.move_cases s
  grind

theorem Instr.eq_enterTask {spec : TaskSubmissionSpec}
    (hmove : op.move s = .enter id spec) : op = .enterTask id spec := by
  have := op.move_cases s
  grind

theorem Instr.eq_requeueTask (hmove : op.move s = .requeue id) :
    ∃ worker spec, op = .requeueTask worker id spec := by
  have := op.move_cases s
  grind

/-- The places of the pass that make a move, the ends of tasks apart. -/
theorem Pass.move_cases (p : Pass) :
    p.move = .none ∨ (∃ id worker results, p = .remove id worker results ∧ p.move = .take id) ∨
      (∃ id worker todo, p = .record id worker todo ∧ p.move = .record id worker) ∨
      ∃ id, p.move = .finish id := by
  cases p with
  | failUnresolvable todo | failDeadlocked todo => cases todo <;> simp [move]
  | _ => simp [move]

theorem Pass.move_ne_enter (p : Pass) (id : ℕ) (spec : TaskSubmissionSpec) : p.move ≠ .enter id spec := by
  have := p.move_cases
  grind

theorem Pass.move_ne_requeue (p : Pass) (id : ℕ) : p.move ≠ .requeue id := by
  have := p.move_cases
  grind

theorem Pass.eq_remove (hmove : p.move = .take id) : ∃ worker results, p = .remove id worker results := by
  have := p.move_cases
  grind

/-- An instruction that may run beside the scheduling pass leaves every task where it is; the restart
may take one out of the table. -/
theorem Instr.move_of_free (hfree : op.free = true) (s : Master) :
    op.move s = .none ∨ ∃ id, op.move s = .forget id := by
  cases op with
  | forgetTask id => exact .inr ⟨id, rfl⟩
  | enterTask | completeTask | failTask | failIfRunning | requeueTask => cases hfree
  | _ => exact .inl rfl

/-! ### What always holds -/

namespace Pass

/-- The decisions that have left the graph and are not yet recorded in the task table. -/
def hand : Pass → List (ℕ × ℕ)
  | readReady results => results
  | readIdle _ results => results
  | choose _ _ results => results
  | claim _ _ results => results
  | remove _ _ results => results
  | assign todo => todo
  | send id worker todo => (id, worker) :: todo
  | record id worker todo => (id, worker) :: todo
  | _ => []

/-- The tasks read from the graph that are still in it. -/
def candidates : Pass → List ℕ
  | readIdle ready _ => ready
  | choose ready _ _ => ready
  | claim id _ _ => [id]
  | remove id _ _ => [id]
  | _ => []

def chosen : Pass → List ℕ
  | claim _ worker _ => [worker]
  | remove _ worker _ => [worker]
  | _ => []

end Pass

/-- What always holds of the containers. -/
structure Placed (s : Master) : Prop where
  graph : s.graph.GraphInv
  held : ∀ t info, s.metadata.getTask t = some info → s.graph.Holds t → info.status = .pending
  running : ∀ t info, s.metadata.getTask t = some info → info.status = .running → info.assignedWorkerId ≠ 0

/-- What always holds of the scheduling pass. -/
structure Coherent (s : Master) (p : Pass) : Prop where
  absent : ∀ d ∈ p.hand, ¬s.graph.Holds d.1
  pending : ∀ d ∈ p.hand, ∀ info, s.metadata.getTask d.1 = some info → info.status = .pending
  worker : ∀ d ∈ p.hand, d.2 ≠ 0
  distinct : (p.hand.map Prod.fst).Nodup
  candidates : ∀ t ∈ p.candidates, s.graph.Holds t
  chosen : ∀ w ∈ p.chosen, w ≠ 0

/-- Both together, for the section that is open. -/
structure Ordered (s : Master) (section? : Option Pass) : Prop where
  placed : Placed s
  pass : ∀ p ∈ section?, Coherent s p

theorem Placed.of_move {move : TaskMove} (hp : Placed s) (hd : move.Describes s s')
    (hrecord : ∀ id worker, move = .record id worker → ¬s.graph.Holds id ∧ worker ≠ 0) :
    Placed s' := by
  refine ⟨hd.graph, fun t info hinfo hholds => ?_, fun t info hinfo hrun => ?_⟩
  · rcases hd.seen hinfo with ⟨hold, hiff | rfl⟩ | ⟨hstatus, -⟩ | ⟨-, -, hnot⟩ | ⟨w, rfl, -, -, hiff⟩
    · exact hp.held t info hold (hiff.mp hholds)
    · exact absurd rfl ((hd.held t).mp hholds).1
    · exact hstatus
    · exact absurd hholds hnot
    · exact absurd (hiff.mp hholds) (hrecord t w rfl).1
  · rcases hd.seen hinfo with ⟨hold, -⟩ | ⟨hstatus, -⟩ | ⟨-, hterm, -⟩ | ⟨w, rfl, -, hworker, -⟩
    · exact hp.running t info hold hrun
    · rw [hrun] at hstatus
      cases hstatus
    · rw [hrun] at hterm
      cases hterm
    · rw [hworker]
      exact (hrecord t w rfl).2

/-- Nothing that may run beside the pass disturbs it. -/
theorem Coherent.of_free (hg : s.graph.GraphInv)
    (h : Coherent s p) (hfree : op.free = true) (hexec : op.exec e s = some (.done s' todo)) :
    Coherent s' p := by
  obtain ⟨-, hheld, htable⟩ := Instr.describes hg hexec
  have hheld' : ∀ t, s'.graph.Holds t ↔ s.graph.Holds t := by
    rcases Instr.move_of_free hfree s with hm | ⟨id, hm⟩
    all_goals
      rw [hm] at hheld
      exact hheld
  have hsame : ∀ t info, s'.metadata.getTask t = some info → s.metadata.getTask t = some info := by
    intro t info hinfo
    rcases Instr.move_of_free hfree s with hm | ⟨id, hm⟩
    · rw [hm] at htable
      exact htable t ▸ hinfo
    rw [hm] at htable
    rw [htable] at hinfo
    split at hinfo
    · cases hinfo
    · exact hinfo
  exact ⟨fun d hd hholds => h.absent d hd ((hheld' d.1).mp hholds),
    fun d hd info hinfo => h.pending d hd info (hsame d.1 info hinfo), h.worker, h.distinct,
    fun t ht => (hheld' t).mpr (h.candidates t ht), h.chosen⟩

/-- A pass whose decisions are all recorded has nothing to keep. -/
theorem Coherent.of_empty (hhand : p.hand = []) (hcand : p.candidates = [])
    (hchosen : p.chosen = []) : Coherent s p := by
  refine ⟨?_, ?_, ?_, ?_, ?_, ?_⟩
  all_goals simp [hhand, hcand, hchosen]

/-- A step that only moves on, with no more decisions than before. -/
theorem Coherent.of_sublist {p' : Pass} (h : Coherent s p) (hhand : p'.hand.Sublist p.hand)
    (hcand : ∀ t ∈ p'.candidates, s.graph.Holds t) (hchosen : ∀ w ∈ p'.chosen, w ≠ 0) :
    Coherent s p' :=
  ⟨fun d hd => h.absent d (hhand.subset hd), fun d hd => h.pending d (hhand.subset hd),
    fun d hd => h.worker d (hhand.subset hd), h.distinct.sublist (hhand.map Prod.fst), hcand, hchosen⟩

/-- Taking a task out of the graph adds it to the decisions. -/
theorem Coherent.remove (hp : Placed s) {results : List (ℕ × ℕ)}
    (h : Coherent s (.remove id worker results)) :
    Coherent { s with graph := s.graph.removeTask id } (.readReady (results ++ [(id, worker)])) := by
  have hholds : s.graph.Holds id := h.candidates id (mem_singleton_self id)
  have hnew : ∀ d ∈ results ++ [(id, worker)], d ∈ results ∨ d = (id, worker) := by
    intro d hd
    simpa using hd
  refine ⟨fun d hd => ?_, fun d hd => ?_, fun d hd => ?_, ?_, forall_mem_nil _, forall_mem_nil _⟩
  · rw [(hp.graph.removeTask id).2]
    rcases hnew d hd with hd | rfl
    · exact fun hr => h.absent d hd hr.2
    · exact fun hr => hr.1 rfl
  · rcases hnew d hd with hd | rfl
    · exact h.pending d hd
    · exact fun info hinfo => hp.held id info hinfo hholds
  · rcases hnew d hd with hd | rfl
    · exact h.worker d hd
    · exact h.chosen worker (mem_singleton_self worker)
  · -- the task taken now was in the graph, the earlier ones were not
    show ((results ++ [(id, worker)]).map Prod.fst).Nodup
    rw [map_append, nodup_append]
    refine ⟨h.distinct, nodup_singleton _, ?_⟩
    rintro a ha b hb rfl
    obtain ⟨d, hd, rfl⟩ := mem_map.mp ha
    have hb : d.1 = id := by simpa using hb
    exact h.absent d hd (hb ▸ hholds)

/-- Recording a decision leaves the others as they are. -/
theorem Coherent.record {todo : List (ℕ × ℕ)} (h : Coherent s (.record id worker todo)) :
    Coherent { s with metadata := s.metadata.assignTask id worker } (.assign todo) := by
  have hsub : todo.Sublist ((id, worker) :: todo) := sublist_cons_self _ _
  refine ⟨fun d hd => h.absent d (hsub.subset hd), fun d hd info hinfo => ?_,
    fun d hd => h.worker d (hsub.subset hd), h.distinct.sublist (hsub.map Prod.fst),
    forall_mem_nil _, forall_mem_nil _⟩
  have hne : d.1 ≠ id := by
    rintro rfl
    exact (nodup_cons.mp h.distinct).1 (mem_map.mpr ⟨d, hd, rfl⟩)
  rw [getTask_assignTask, if_neg hne] at hinfo
  exact h.pending d (hsub.subset hd) info hinfo

/-- The pass keeps itself in order. -/
theorem Coherent.inside (hp : Placed s) {p' : Pass} (h : Coherent s p)
    (hinside : p.inside e s = some (s', some p')) : Coherent s' p' := by
  cases goes hinside with
  | noReady | noIdle | noChoice | connected =>
    exact h.of_sublist (refl _) (forall_mem_nil _) (forall_mem_nil _)
  | ready => exact h.of_sublist (refl _) (fun t ht => .inl ht) (forall_mem_nil _)
  | idle => exact h.of_sublist (refl _) h.candidates (forall_mem_nil _)
  | choice ready idle results id hid worker hworker =>
    refine h.of_sublist (refl _) (fun t ht => ?_) fun w hw => ?_
    · rw [mem_singleton.mp ht]
      exact h.candidates id hid
    · rw [mem_singleton.mp hw]
      exact hworker
  | claim => exact ⟨h.absent, h.pending, h.worker, h.distinct, h.candidates, h.chosen⟩
  | remove => exact h.remove hp
  | unconnected => exact h.of_sublist (sublist_cons_self _ _) (forall_mem_nil _) (forall_mem_nil _)
  | send => exact ⟨h.absent, h.pending, h.worker, h.distinct, forall_mem_nil _, forall_mem_nil _⟩
  | record => exact h.record
  | _ => exact .of_empty rfl rfl rfl

/-- Recording a decision is recording one at hand. -/
theorem Pass.mem_hand_of_record (hmove : p.move = .record id worker) : (id, worker) ∈ p.hand := by
  obtain ⟨todo, rfl⟩ : ∃ todo, p = .record id worker todo := by
    have := p.move_cases
    grind
  exact mem_cons_self

/-- The scheduling pass starts from the beginning. -/
theorem Instr.enter_eq (hexec : op.exec e s = some (.enter p)) : p = .readReady [] := by
  cases op with
  | beginPass =>
    cases hexec
    rfl
  | _ =>
    simp only [exec] at hexec
    grind [map_eq_some_iff]

/-- The move of what a thread does next. -/
def stepMove (s : Master) : Instr ⊕ Pass → TaskMove
  | .inl op => op.move s
  | .inr p => p.move

/-- **What an action does to the tasks**: nothing, or the move of what the thread does next. -/
theorem step_describes (h : w.shared.graph.GraphInv) (hstep : masterAgent.step w a = some w') :
    ∃ move : TaskMove, move.Describes w.shared w'.shared ∧ (move = .none ∨
      ∃ i e x, a = .step i e ∧ w.next i = some x ∧ move = stepMove w.shared x) := by
  rcases Threaded.step_cases hstep with ⟨g, -, rfl⟩ | ⟨i, e, ha, hcase⟩
  · exact ⟨.none, describes_none h rfl rfl, .inl rfl⟩
  rcases hcase with ⟨p, s, p', -, hnext, hinside, rfl⟩ | ⟨op, rest, hexec, hcase⟩
  · exact ⟨p.move, describes h hinside, .inr ⟨i, e, _, ha, hnext, rfl⟩⟩
  · rcases hcase with ⟨s, todo, hdone, rfl⟩ | ⟨p, -, -, rfl⟩
    · exact ⟨op.move w.shared, describes h hdone, .inr ⟨i, e, _, ha, hexec.next, rfl⟩⟩
    · exact ⟨.none, describes_none h rfl rfl, .inl rfl⟩

/-! ### Whole runs -/

theorem placed_empty : Placed {} := by
  refine ⟨DependencyGraph.graphInv_empty, fun t info hinfo => ?_, fun t info hinfo => ?_⟩
  all_goals simp [getTask] at hinfo

theorem Placed.exec (hp : Placed s) (hexec : op.exec e s = some (.done s' todo)) : Placed s' :=
  hp.of_move (describes hp.graph hexec) fun id worker hmove =>
    absurd hmove (op.move_ne_record s id worker)

theorem ordered_init : Ordered init.shared init.section? :=
  ⟨placed_empty, by simp [World.section?, init]⟩

theorem Ordered.exec (h : Ordered s section?) (hmutex : op.free = true ∨ section? = none)
    (hexec : op.exec e s = some (.done s' todo)) : Ordered s' section? := by
  refine ⟨h.placed.exec hexec, fun p hpass => ?_⟩
  rcases hmutex with hfree | hnone
  · exact (h.pass p hpass).of_free h.placed.graph hfree hexec
  · rw [hnone] at hpass
    cases hpass

theorem Ordered.enter (h : Ordered s section?)
    (henter : op.exec e s = some (.enter p)) : Ordered s (some p) := by
  refine ⟨h.placed, fun q hq => ?_⟩
  cases hq
  rw [enter_eq henter]
  exact .of_empty rfl rfl rfl

theorem Ordered.inside (h : Ordered s (some p))
    (hinside : p.inside e s = some (s', p')) : Ordered s' p' := by
  have hcoh := h.pass p rfl
  refine ⟨h.placed.of_move (describes h.placed.graph hinside) fun _ _ hmove => ?_, fun q hq => ?_⟩
  · have hhand := mem_hand_of_record hmove
    exact ⟨hcoh.absent _ hhand, hcoh.worker _ hhand⟩
  · cases hq
    exact hcoh.inside h.placed hinside

theorem Ordered.step (h : Ordered w.shared w.section?)
    (hstep : masterAgent.step w a = some w') : Ordered w'.shared w'.section? :=
  Threaded.invariant_step (P := masterAgent) (I := Ordered) (C := fun _ _ _ => True)
    (fun _ _ _ _ _ h hmutex _ hexec => h.exec hmutex hexec)
    (fun _ _ _ _ h henter => h.enter henter)
    (fun _ _ _ _ _ h _ hinside => h.inside hinside) h (fun _ _ _ _ _ => trivial) hstep

/-- **The containers and the scheduling pass are in order along every interleaving.** -/
theorem ordered_run {acts : List MasterAction} (hrun : run masterAgent.step init acts = some w) :
    Ordered w.shared w.section? :=
  run_invariant (I := fun w => Ordered w.shared w.section?)
    (fun _ _ _ _ h hstep => h.step hstep) ordered_init hrun

end Fly.Agent
