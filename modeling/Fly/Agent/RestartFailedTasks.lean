import Fly.Agent.FailedTasks
import Fly.Agent.TaskMoves
import Mathlib.Data.Finset.Card

/-!
# Restarting failed tasks (`MasterAgent::restart_failed_tasks`)

For each record the call takes the task out of the task table, submits it again and runs a scheduling
pass.  The records carry ids of an earlier run of the master, so an id may be that of a task of this run.

Here the call runs while the other threads of the master stand still, from the tables of any reachable
state.  A record is *fresh* if, when its turn comes, the graph does not hold its id and no task that was
pending or running before the call has it.

* `Stage` — where the call is: scheduling, or between the removal and the submission of a record;
* `Settled` — the lists of tasks read from the graph by the scheduling pass, which are still in it;
* `Kept` — **the tasks of before the call are still there**: running ones with their status, pending ones
  unless a scheduling pass assigned or failed them;
* `soloCost` — a measure that every step decreases: the call comes to its end.
-/

namespace Fly.Agent

open Fly.Lib Fly.Task List Option Instr Threaded GraphOp MasterWorld Pass RestartInput TaskManager Nat Prod

abbrev MasterSolo := Solo Master Instr Pass

/-- The tables in which the call starts its loop, and the loop. -/
def restartLoop (s : Master) (records : List FailedTaskRecord) : MasterSolo where
  shared := s
  todo := (Handler.restartFailedTasks (submissions records)).program

/-! ### What is said about a call -/

/-- The submissions in a trace. -/
def submitted (trace : List (Instr ⊕ Pass)) : List (ℕ × TaskSubmissionSpec) :=
  trace.filterMap fun
    | .inl (.enterTask id spec) => some (id, spec)
    | _ => none

/-- The tasks that the scheduling passes of a trace gave up. -/
def givenUp (trace : List (Instr ⊕ Pass)) : List ℕ :=
  trace.filterMap fun
    | .inr (.failUnresolvable (id :: _)) => some id
    | .inr (.failDeadlocked (id :: _)) => some id
    | _ => none

/-- The task is pending or running. -/
def Live (s : Master) (t : ℕ) (info : TaskMetadata) : Prop :=
  s.metadata.getTask t = some info ∧ (info.status = .pending ∨ info.status = .running)

/-- The id of a record can be used without harm. -/
def Fresh (before now : Master) (id : ℕ) : Prop :=
  (∀ info, ¬Live before id info) ∧ ¬now.graph.Holds id

/-- Every record is fresh when its turn comes. -/
def FreshRecords (t₀ : MasterSolo) (outs : List Outside) : Prop :=
  ∀ pre e post u id, outs = pre ++ e :: post → run masterAgent.soloStep t₀ pre = some u →
    u.next = some (.inl (.forgetTask id)) → Fresh t₀.shared u.shared id

/-- The task is there with the same submission, and the same status unless it was pending and has been
given to a worker. -/
def StillThere (now : Master) (t : ℕ) (info : TaskMetadata) : Prop :=
  ∃ info', now.metadata.getTask t = some info' ∧ info'.submission = info.submission ∧
    (info'.status = info.status ∨ (info.status = .pending ∧ info'.status = .running))

/-- The tasks of before are still there, but for pending ones that a scheduling pass gave up. -/
def Kept (before now : Master) (failed : List ℕ) : Prop :=
  ∀ t info, Live before t info → (t ∈ failed ∧ info.status = .pending) ∨ StillThere now t info

/-! ### The tasks in the graph -/

def heldCount (s : Master) : ℕ := (s.graph.getReadyTasks ++ s.graph.getPendingTasks).toFinset.card

variable {s s' : Master} {e : Outside} {t : ℕ}

theorem mem_held :
    t ∈ (s.graph.getReadyTasks ++ s.graph.getPendingTasks).toFinset ↔ s.graph.Holds t := by
  rw [List.mem_toFinset, mem_append]
  exact Iff.rfl

theorem length_ready_le (h : s.graph.GraphInv) : s.graph.getReadyTasks.length ≤ heldCount s := by
  rw [← toFinset_card_of_nodup h.keys.nodup_getReadyTasks]
  refine Finset.card_le_card fun t ht => ?_
  exact mem_held.mpr (.inl (mem_toFinset.mp ht))

theorem length_pending_le : s.graph.getPendingTasks.length ≤ heldCount s := by
  have hnodup : s.graph.getPendingTasks.Nodup := s.graph.pendingTasks.nodup
  rw [← toFinset_card_of_nodup hnodup]
  refine Finset.card_le_card fun t ht => ?_
  exact mem_held.mpr (.inr (mem_toFinset.mp ht))

/-- A move that adds nothing to the graph. -/
theorem heldCount_le {move : TaskMove} (hd : move.Describes s s')
    (hmove : ∀ t, move.HeldAfter s.graph.Holds t → s.graph.Holds t) : heldCount s' ≤ heldCount s := by
  refine Finset.card_le_card fun t ht => ?_
  exact mem_held.mpr (hmove t ((hd.held t).mp (mem_held.mp ht)))

variable {id : ℕ} {p' : Option Pass} {p : Pass} {op : Instr} {spec : TaskSubmissionSpec}

theorem heldCount_enter (hd : (TaskMove.enter id spec).Describes s s') : heldCount s' ≤ heldCount s + 1 := by
  refine le_trans (Finset.card_le_card fun t ht => ?_)
    (Finset.card_insert_le id (s.graph.getReadyTasks ++ s.graph.getPendingTasks).toFinset)
  rw [Finset.mem_insert, mem_held]
  exact (hd.held t).mp (mem_held.mp ht)

theorem heldCount_take (hd : (TaskMove.take id).Describes s s') (hheld : s.graph.Holds id) :
    heldCount s' < heldCount s := by
  refine Finset.card_lt_card ((Finset.ssubset_iff_of_subset fun t ht => ?_).mpr ⟨id, ?_, fun h => ?_⟩)
  · exact mem_held.mpr ((hd.held t).mp (mem_held.mp ht)).2
  · exact mem_held.mpr hheld
  · exact ((hd.held id).mp (mem_held.mp h)).1 rfl

/-- Inside the scheduling pass the graph only loses tasks. -/
theorem Pass.held_of_move (ht : p.move.HeldAfter s.graph.Holds t) : s.graph.Holds t := by
  rcases p.move_cases with hm | ⟨id, worker, results, -, hm⟩ | ⟨id, worker, todo, -, hm⟩ | ⟨id, hm⟩ <;>
    rw [hm] at ht
  · exact ht
  · exact ht.2
  · exact ht
  · exact ht.2

theorem heldCount_inside (hg : s.graph.GraphInv)
    (hinside : p.inside e s = some (s', p')) : heldCount s' ≤ heldCount s :=
  heldCount_le (Pass.describes hg hinside) fun _ => held_of_move

/-! ### The lists that the pass has read -/

/-- The tasks that the pass has read and may give up. -/
def Pass.listed : Pass → List ℕ
  | checkPending pending => pending
  | failUnresolvable todo => todo
  | findDeadlocked _ todo deadlocked => deadlocked ++ todo
  | failDeadlocked todo => todo
  | _ => []

/-- They are different tasks, and the graph holds them. -/
structure Settled (s : Master) (p : Pass) : Prop where
  nodup : p.listed.Nodup
  held : ∀ t ∈ p.listed, s.graph.Holds t

open Settled

theorem Settled.of_sublist {p' : Pass} (h : Settled s p) (hsub : p'.listed.Sublist p.listed)
    (hheld : ∀ t ∈ p'.listed, s.graph.Holds t → s'.graph.Holds t) : Settled s' p' :=
  ⟨h.nodup.sublist hsub, fun t ht => hheld t ht (h.held t (hsub.subset ht))⟩

theorem Settled.of_nil (h : p.listed = []) : Settled s p := by
  refine ⟨?_, ?_⟩
  all_goals simp [h]

/-- Giving up the first task of a list leaves the others in the graph. -/
theorem Settled.fail (hg : s.graph.GraphInv) {p' : Pass} (h : Settled s p)
    (hlisted : p.listed = id :: p'.listed) (error : String) : Settled (s.failTask e id error) p' := by
  obtain ⟨hnodup, hheld⟩ := h
  rw [hlisted] at hnodup hheld
  obtain ⟨hid, htodo⟩ := nodup_cons.mp hnodup
  refine ⟨htodo, fun t ht => ?_⟩
  refine ((TaskMove.describes_failTask hg e id error).held t).mpr ⟨?_, ?_⟩
  · rintro rfl
    exact hid ht
  · exact hheld t (mem_cons_of_mem _ ht)

theorem Settled.inside (hg : s.graph.GraphInv) {p' : Pass} (h : Settled s p)
    (hinside : p.inside e s = some (s', some p')) : Settled s' p' := by
  cases goes hinside with
  | pending => exact ⟨s.graph.pendingTasks.nodup, fun t ht => .inr ht⟩
  | unresolvable => exact h.of_sublist (List.Sublist.refl _) fun t _ ht => ht
  | failUnresolvable | failDeadlocked => exact h.fail hg rfl _
  | switchOn => exact ⟨hg.keys.nodup_getReadyTasks, fun t ht => .inl ht⟩
  | found running deadlocked =>
    refine h.of_sublist ?_ fun t _ ht => ht
    rw [Pass.listed, Pass.listed, append_nil]
  | skip running id todo deadlocked =>
    exact h.of_sublist ((sublist_cons_self id todo).append_left deadlocked) fun t _ ht => ht
  | deadlock =>
    refine h.of_sublist ?_ fun t _ ht => ht
    simp [Pass.listed]
  | _ => exact of_nil rfl

/-! ### Where the call is -/

def Instr.schedules : Instr → Bool
  | scheduleTasks => true
  | computeLocalityHints => true
  | setLocalityHint _ => true
  | beginPass => true
  | _ => false

/-- The loop over the records that are left. -/
def restartRest (rest : List (ℕ × TaskSubmissionSpec)) : List Instr :=
  (Handler.restartFailedTasks rest).program

theorem restartRest_cons (r : ℕ × TaskSubmissionSpec) (rest : List (ℕ × TaskSubmissionSpec)) :
    restartRest (r :: rest) =
      .forgetTask r.1 :: .enterTask r.1 r.2 :: .scheduleTasks :: restartRest rest := rfl

/-- Where the call is, and the records that are still to be submitted. -/
inductive Stage (u : MasterSolo) : List (ℕ × TaskSubmissionSpec) → Prop
  | scheduling (front : List Instr) (rest : List (ℕ × TaskSubmissionSpec))
      (todo : u.todo = front ++ restartRest rest) (hfront : ∀ op ∈ front, op.schedules = true) :
      Stage u rest
  | entering (id : ℕ) (spec : TaskSubmissionSpec) (rest : List (ℕ × TaskSubmissionSpec))
      (todo : u.todo = .enterTask id spec :: .scheduleTasks :: restartRest rest)
      (outside : u.inside? = none) (gone : u.shared.metadata.getTask id = none)
      (absent : ¬u.shared.graph.Holds id) : Stage u ((id, spec) :: rest)

/-- What the call does next. -/
inductive NextOp (u : MasterSolo) (rest : List (ℕ × TaskSubmissionSpec)) : Instr → Prop
  | schedule {op : Instr} (front : List Instr) (todo : u.todo = op :: (front ++ restartRest rest))
      (hop : op.schedules = true) (hfront : ∀ op ∈ front, op.schedules = true) : NextOp u rest op
  | forget (r : ℕ × TaskSubmissionSpec) (left : List (ℕ × TaskSubmissionSpec)) (hrest : rest = r :: left)
      (todo : u.todo = .forgetTask r.1 :: .enterTask r.1 r.2 :: .scheduleTasks :: restartRest left) :
      NextOp u rest (.forgetTask r.1)
  | enter (r : ℕ × TaskSubmissionSpec) (left : List (ℕ × TaskSubmissionSpec))
      (hrest : rest = r :: left) (todo : u.todo = .enterTask r.1 r.2 :: .scheduleTasks :: restartRest left)
      (gone : u.shared.metadata.getTask r.1 = none) (absent : ¬u.shared.graph.Holds r.1) :
      NextOp u rest (.enterTask r.1 r.2)

variable {u u' : MasterSolo} {rest : List (ℕ × TaskSubmissionSpec)} {left : List Instr} {n m : ℕ}

theorem Stage.nextOp (h : Stage u rest) (htodo : u.todo = op :: left) :
    NextOp u rest op := by
  cases h with
  | scheduling front rest todo hfront =>
    cases front with
    | cons op' front =>
      rw [todo, cons_append, List.cons.injEq] at htodo
      obtain ⟨rfl, -⟩ := htodo
      exact .schedule front todo (hfront _ mem_cons_self) fun x hx => hfront x (mem_cons_of_mem _ hx)
    | nil =>
      cases rest with
      | nil =>
        rw [todo] at htodo
        cases htodo
      | cons r rest =>
        rw [nil_append, restartRest_cons] at todo
        rw [todo, List.cons.injEq] at htodo
        obtain ⟨rfl, -⟩ := htodo
        exact .forget r rest rfl todo
  | entering id spec rest todo outside gone absent =>
    rw [todo, List.cons.injEq] at htodo
    obtain ⟨rfl, -⟩ := htodo
    exact .enter (id, spec) rest rfl todo gone absent

/-! ### What the instructions of `schedule_tasks` do -/

/-- The cost of an instruction while the graph holds `n` tasks: an upper bound of the steps it takes. -/
def Instr.cost (n : ℕ) : Instr → ℕ
  | scheduleTasks => 12 * n + 14
  | computeLocalityHints => n + 1
  | beginPass => 11 * n + 11
  | _ => 1

/-- How many tasks the instruction adds to the graph. -/
def Instr.enters : Instr → ℕ
  | enterTask .. => 1
  | _ => 0

def programCost : ℕ → List Instr → ℕ
  | _, [] => 0
  | n, op :: rest => op.cost n + programCost (n + op.enters) rest

theorem Instr.cost_mono (op : Instr) (h : n ≤ m) : op.cost n ≤ op.cost m := by
  cases op with
  | scheduleTasks | computeLocalityHints | beginPass =>
    simp only [cost]
    omega
  | _ => exact le_refl 1

theorem programCost_mono (h : n ≤ m) (ops : List Instr) :
    programCost n ops ≤ programCost m ops := by
  induction ops generalizing n m with
  | nil => exact le_refl 0
  | cons op ops ih => exact Nat.add_le_add (op.cost_mono h) (ih (Nat.add_le_add_right h _))

theorem Instr.enters_of_schedules (h : op.schedules = true) : op.enters = 0 := by
  cases op with
  | enterTask id spec => cases h
  | _ => rfl

theorem programCost_append {front : List Instr} (h : ∀ op ∈ front, op.schedules = true) (n : ℕ)
    (ops : List Instr) : programCost n (front ++ ops) = programCost n front + programCost n ops := by
  induction front with
  | nil => simp [programCost]
  | cons op front ih =>
    rw [cons_append, programCost, programCost, enters_of_schedules (h op mem_cons_self),
      add_zero, ih fun x hx => h x (mem_cons_of_mem _ hx), add_assoc]

theorem programCost_hints (n : ℕ) (ids : List ℕ) :
    programCost n (ids.map setLocalityHint) = ids.length := by
  induction ids with
  | nil => rfl
  | cons id ids ih =>
    show 1 + programCost n (ids.map .setLocalityHint) = ids.length + 1
    rw [ih, add_comm]

theorem Instr.move_of_schedules (h : op.schedules = true) (s : Master) : op.move s = .none := by
  cases op <;> first | rfl | cases h

/-- **An instruction of `schedule_tasks`** leaves the task table alone, asks for further such
instructions at less cost, or begins the pass. -/
theorem Instr.exec_schedules (hop : op.schedules = true) (e : Outside) (hg : s.graph.GraphInv) :
    (∃ s' todo, op.exec e s = some (.done s' todo) ∧ (∀ x ∈ todo, x.schedules = true) ∧
      programCost (heldCount s) todo < op.cost (heldCount s)) ∨
    (op = .beginPass ∧ op.exec e s = some (.enter (.readReady []))) := by
  cases op with
  | scheduleTasks =>
    refine .inl ⟨s, _, rfl, ?_, ?_⟩
    · intro x hx
      split at hx
      · cases hx
      · split at hx
        all_goals
          simp only [mem_cons, not_mem_nil, or_false] at hx
          rcases hx with rfl | rfl <;> rfl
    · split
      · simp only [programCost, cost]
        omega
      · split
        all_goals
          simp only [programCost, cost, enters]
          omega
  | computeLocalityHints =>
    refine .inl ⟨s, _, rfl, ?_, ?_⟩
    · intro x hx
      obtain ⟨id, -, rfl⟩ := mem_map.mp hx
      rfl
    · rw [programCost_hints, cost]
      have := length_ready_le hg
      omega
  | setLocalityHint id =>
    exact .inl ⟨_, [], rfl, forall_mem_nil _, zero_lt_one⟩
  | beginPass => exact .inr ⟨rfl, rfl⟩
  | _ => cases hop

/-- No assertion of `create_task` and `add_task` fails for an id that neither container knows. -/
theorem exec_enterTask (hg : s.graph.GraphInv) (hgone : s.metadata.getTask id = none)
    (habsent : ¬s.graph.Holds id) (e : Outside) (spec : TaskSubmissionSpec) :
    ∃ s', (enterTask id spec).exec e s = some (.done s' []) := by
  have hunknown : id ∉ s.metadata.taskStatus := by
    rw [← getTask_isSome, hgone]
    exact Bool.false_ne_true
  have hdeps : (s.graph.slot id).deps = none := by
    rw [hg.holds_iff, Bool.not_eq_true, isSome_eq_false_iff, isNone_iff_eq_none] at habsent
    exact habsent
  have hadd : ((addTask e.clock id spec.inputs spec.requirements).step s.graph).isSome := by
    rw [step_isSome]
    intro t ht
    obtain rfl : id = t := by simpa [adds] using ht
    exact hdeps
  obtain ⟨g, hg'⟩ := isSome_iff_exists.mp hadd
  refine ⟨{ s with metadata := s.metadata.file id { submission := spec }, graph := g }, ?_⟩
  rw [Instr.exec, Master.enterTask, createTask, if_neg hunknown, bind_some]
  exact congrArg (Option.map _) (congrArg (Option.map _) hg')

/-! ### The steps of the call -/

/-- The section the call is in, and what its lists are. -/
structure Sound (u : MasterSolo) (rest : List (ℕ × TaskSubmissionSpec)) : Prop where
  ordered : Ordered u.shared u.inside?
  settled : ∀ p ∈ u.inside?, Settled u.shared p
  stage : Stage u rest

/-- What one step of the call leaves to be submitted. -/
theorem Sound.step (h : Sound u rest) (hstep : masterAgent.soloStep u e = some u')
    (hfresh : ∀ id, u.next = some (.inl (.forgetTask id)) → ¬u.shared.graph.Holds id) :
    ∃ left, Sound u' left ∧ submitted u.next.toList ++ left = rest := by
  obtain ⟨hordered, hsettled, hstage⟩ := h
  rcases soloStep_cases hstep with ⟨p, s, p', hin, hnext, hinside, rfl⟩ | ⟨op, left, hout, htodo, hnext, -⟩
  · rw [hnext]
    rw [hin] at hordered
    refine ⟨rest, ⟨hordered.inside hinside, fun q hq => ?_, ?_⟩, rfl⟩
    · cases hq
      exact (hsettled p hin).inside hordered.placed.graph hinside
    · cases hstage with
      | scheduling front rest todo hfront => exact .scheduling front rest todo hfront
      | entering id spec rest todo outside => exact absurd (hin.symm.trans outside) (by simp)
  · rw [hnext]
    have hg := hordered.placed.graph
    rw [hout] at hordered
    cases hstage.nextOp htodo with
    | schedule front todo hop hfront =>
      obtain ⟨-, rfl⟩ := List.cons.inj (htodo.symm.trans todo)
      have hsub : submitted [.inl op] = [] := by
        cases op <;> first | rfl | cases hop
      rcases exec_schedules hop e hg with ⟨s', more, hdone, hmore, -⟩ | ⟨rfl, henter⟩
      · obtain rfl := Option.some.inj (hstep.symm.trans (soloStep_of_done hout htodo hdone))
        refine ⟨rest, ⟨?_, by simp, .scheduling (more ++ front) rest ?_ ?_⟩, ?_⟩
        · exact hordered.exec (.inr rfl) hdone
        · rw [append_assoc]
        · intro x hx
          rcases mem_append.mp hx with hx | hx
          · exact hmore x hx
          · exact hfront x hx
        · rw [toList_some, hsub, nil_append]
      · obtain rfl := Option.some.inj (hstep.symm.trans (soloStep_of_enter hout htodo henter))
        refine ⟨rest, ⟨hordered.enter henter, fun q hq => ?_, .scheduling front rest rfl hfront⟩, rfl⟩
        cases hq
        exact of_nil rfl
    | forget r left' hrest todo =>
      obtain ⟨-, rfl⟩ := List.cons.inj (htodo.symm.trans todo)
      have hdone : (forgetTask r.1).exec e u.shared = some (.done _ []) := rfl
      obtain rfl := Option.some.inj (hstep.symm.trans (soloStep_of_done hout htodo hdone))
      refine ⟨r :: left', ⟨hordered.exec (.inr rfl) hdone, by simp, ?_⟩, hrest.symm⟩
      exact .entering r.1 r.2 left' rfl rfl (by
        show (u.shared.metadata.unfile r.1).getTask r.1 = none
        rw [TaskManager.getTask_unfile, if_pos rfl]) (hfresh r.1 hnext)
    | enter r left' hrest todo gone absent =>
      obtain ⟨-, rfl⟩ := List.cons.inj (htodo.symm.trans todo)
      obtain ⟨s', hdone⟩ := exec_enterTask hg gone absent e r.2
      obtain rfl := Option.some.inj (hstep.symm.trans (soloStep_of_done hout htodo hdone))
      exact ⟨left', ⟨hordered.exec (.inr rfl) hdone, by simp,
        .scheduling [.scheduleTasks] left' rfl (by simp [Instr.schedules])⟩, hrest.symm⟩

/-! ### The tasks of before the call -/

/-- Where the pass ends a task: it is one of those listed, and it is given up. -/
theorem Pass.eq_giveUp (hmove : p.move = .finish id) : id ∈ p.listed ∧ givenUp [.inr p] = [id] := by
  cases p with
  | failUnresolvable todo | failDeadlocked todo =>
    cases todo with
    | nil => cases hmove
    | cons id' todo =>
      cases hmove
      exact ⟨mem_cons_self, rfl⟩
  | _ => cases hmove

variable {before : Master} {failed : List ℕ}
  {info : TaskMetadata} {todo : List Instr} {outs : List Outside} {w : MasterWorld}

/-- A step that keeps each of the tasks, or gives it up. -/
theorem Kept.of_step (h : Kept before s failed) (more : List ℕ)
    (hstep : ∀ t info, Live before t info → StillThere s t info →
      (t ∈ more ∧ info.status = .pending) ∨ StillThere s' t info) :
    Kept before s' (failed ++ more) := by
  intro t info hlive
  rcases h t info hlive with ⟨hin, hpending⟩ | hthere
  · exact .inl ⟨mem_append_left more hin, hpending⟩
  · rcases hstep t info hlive hthere with ⟨hin, hpending⟩ | hthere
    · exact .inl ⟨mem_append_right failed hin, hpending⟩
    · exact .inr hthere

theorem StillThere.of_eq (h : StillThere s t info)
    (heq : s'.metadata.getTask t = s.metadata.getTask t) : StillThere s' t info := by
  obtain ⟨info', hget, hrest⟩ := h
  exact ⟨info', heq.trans hget, hrest⟩

/-- A task of before that is pending now was pending before. -/
theorem StillThere.pending_before {info' : TaskMetadata} (h : StillThere s t info)
    (hget : s.metadata.getTask t = some info') (hpending : info'.status = .pending) :
    info.status = .pending := by
  obtain ⟨info'', hget', -, hstatus⟩ := h
  obtain rfl : info' = info'' := by simpa using hget.symm.trans hget'
  rcases hstatus with hsame | ⟨hbefore, -⟩
  · exact hsame ▸ hpending
  · exact hbefore

/-- The scheduling pass keeps the tasks of before, or gives them up. -/
theorem Kept.inside (hp : Placed s) (hcoh : Coherent s p)
    (hset : Settled s p) (h : Kept before s failed) (hinside : p.inside e s = some (s', p')) :
    Kept before s' (failed ++ givenUp [.inr p]) := by
  have htable := (describes hp.graph hinside).table
  refine h.of_step _ fun t info hlive hthere => ?_
  rcases p.move_cases with hm | ⟨id, worker, results, -, hm⟩ | ⟨id, worker, todo, -, hm⟩ | ⟨id, hm⟩
  · rw [hm] at htable
    exact .inr (hthere.of_eq (htable t))
  · rw [hm] at htable
    exact .inr (hthere.of_eq (htable t))
  · -- the task is recorded with its worker: it was pending
    rw [hm] at htable
    by_cases ht : t = id
    · subst ht
      obtain ⟨info', hget, hsub, hstatus⟩ := id hthere
      have hpending := hcoh.pending _ (mem_hand_of_record hm) info' hget
      refine .inr ⟨{ info' with status := .running, assignedWorkerId := worker }, ?_, hsub,
        .inr ⟨hthere.pending_before hget hpending, rfl⟩⟩
      rw [htable, if_pos rfl, hget, map_some]
    · exact .inr (hthere.of_eq (by rw [htable, if_neg ht]))
  · -- the task is given up: it was in the graph
    obtain ⟨hlisted, hup⟩ := eq_giveUp hm
    rw [hm] at htable
    rw [hup]
    by_cases ht : t = id
    · subst ht
      obtain ⟨info', hget, -, -⟩ := id hthere
      have hpending := hp.held t info' hget (hset.held t hlisted)
      exact .inl ⟨mem_singleton_self t, hthere.pending_before hget hpending⟩
    · obtain ⟨info', hget, hsub, hstatus⟩ := hthere
      rcases htable.others t ht with hsame | ⟨-, old, hold, hterminal⟩
      · exact .inr ⟨info', hsame.trans hget, hsub, hstatus⟩
      · -- only finished tasks are forgotten
        obtain rfl : old = info' := by simpa using hold.symm.trans hget
        rcases hlive.2 with hbefore | hbefore <;> rcases hstatus with hnow | ⟨-, hnow⟩ <;>
          simp [hnow, hbefore, TaskStatus.terminal] at hterminal

theorem Kept.step (hsound : Sound u rest) (h : Kept before u.shared failed)
    (hstep : masterAgent.soloStep u e = some u')
    (hfresh : ∀ id, u.next = some (.inl (.forgetTask id)) → Fresh before u.shared id) :
    Kept before u'.shared (failed ++ givenUp u.next.toList) := by
  obtain ⟨hordered, hsettled, hstage⟩ := hsound
  rcases soloStep_cases hstep with ⟨p, s, p', hin, hnext, hinside, rfl⟩ |
    ⟨op, left, hout, htodo, hnext, hexec⟩
  · rw [hnext]
    exact h.inside hordered.placed (hordered.pass p hin) (hsettled p hin) hinside
  rcases hexec with ⟨s, more, hdone, rfl⟩ | ⟨p, -, rfl⟩
  · have htable := (describes hordered.placed.graph hdone).table
    refine h.of_step _ fun t info hlive hthere => .inr ?_
    cases hstage.nextOp htodo with
    | schedule front todo hop hfront =>
      rw [move_of_schedules hop] at htable
      exact hthere.of_eq (htable t)
    | forget r left' hrest todo =>
      have hne : t ≠ r.1 := by
        rintro rfl
        exact (hfresh r.1 hnext).1 info hlive
      exact hthere.of_eq ((htable t).trans (if_neg hne))
    | enter r left' hrest todo gone absent =>
      have hne : t ≠ r.1 := by
        rintro rfl
        obtain ⟨info', hget, -⟩ := hthere
        rw [gone] at hget
        cases hget
      exact hthere.of_eq ((htable.2 t).trans (if_neg hne))
  · exact h.of_step _ fun t info _ hthere => .inr hthere

/-! ### The call comes to its end -/

/-- An upper bound of the steps that the pass still takes, while the graph holds `n` tasks. -/
def Pass.cost (n : ℕ) : Pass → ℕ
  | readReady results => 11 * n + 3 * results.length + 10
  | readIdle _ results => 11 * n + 3 * results.length + 9
  | choose _ _ results => 11 * n + 3 * results.length + 8
  | claim _ _ results => 11 * n + 3 * results.length + 4
  | remove _ _ results => 11 * n + 3 * results.length + 3
  | assign todo => 3 * todo.length + 3 * n + 7
  | send _ _ todo => 3 * todo.length + 3 * n + 9
  | record _ _ todo => 3 * todo.length + 3 * n + 8
  | readPending => 3 * n + 6
  | checkPending pending => pending.length + 2 * n + 5
  | failUnresolvable todo => todo.length + 2 * n + 4
  | readSwitch => 2 * n + 3
  | findDeadlocked _ todo deadlocked => 2 * todo.length + deadlocked.length + 2
  | failDeadlocked todo => todo.length + 1

/-- An upper bound of the steps that the call still takes. -/
def soloCost (u : MasterSolo) : ℕ :=
  u.inside?.elim 0 (cost (heldCount u.shared)) + programCost (heldCount u.shared) u.todo

/-- Every step of the pass brings it closer to its end; a decision takes a task out of the graph. -/
theorem Pass.cost_inside (hg : s.graph.GraphInv) (hcoh : Coherent s p)
    (hinside : p.inside e s = some (s', p')) :
    p'.elim 0 (cost (heldCount s')) < p.cost (heldCount s) := by
  have hle := heldCount_inside hg hinside
  have hpending := length_pending_le (s := s)
  have hready := length_ready_le hg
  cases goes hinside with
  | remove id worker results =>
    have hless := heldCount_take (describes hg hinside) (hcoh.candidates id (mem_singleton_self id))
    simp only [elim_some, cost, length_append, length_singleton]
    omega
  | deadlock =>
    simp only [elim_some, cost, length_append, length_cons, length_nil]
    omega
  | _ =>
    simp only [elim_some, elim_none, cost, length_cons, length_nil]
    omega

/-- The instructions of the call add at most the tasks they submit. -/
theorem heldCount_exec (hg : s.graph.GraphInv) (hdone : op.exec e s = some (.done s' todo))
    (hmove : (∀ t, (op.move s).HeldAfter s.graph.Holds t → s.graph.Holds t) ∨
      ∃ id spec, op = .enterTask id spec) :
    heldCount s' ≤ heldCount s + op.enters := by
  have hd := describes hg hdone
  rcases hmove with hmove | ⟨id, spec, rfl⟩
  · exact le_trans (heldCount_le hd hmove) (le_add_right _ _)
  · exact heldCount_enter hd

theorem soloCost_le (hstep : masterAgent.soloStep u e = some u')
    (hdone : masterAgent.soloStep u e = some ⟨s, none, todo⟩) (hheld : heldCount s ≤ n) :
    soloCost u' ≤ programCost n todo := by
  obtain rfl := Option.some.inj (hstep.symm.trans hdone)
  rw [soloCost, elim_none, Nat.zero_add]
  exact programCost_mono hheld todo

/-- **Every step of the call brings it closer to its end.** -/
theorem soloCost_lt (hsound : Sound u rest) (hstep : masterAgent.soloStep u e = some u') :
    soloCost u' < soloCost u := by
  obtain ⟨hordered, -, hstage⟩ := hsound
  have hg := hordered.placed.graph
  rcases soloStep_cases hstep with ⟨p, s, p', hin, -, hinside, rfl⟩ | ⟨op, left, hout, htodo, -, -⟩
  · have hcost := Pass.cost_inside hg (hordered.pass p hin) hinside
    have hprogram := programCost_mono (heldCount_inside hg hinside) u.todo
    rw [soloCost, soloCost, hin, elim_some]
    exact Nat.add_lt_add_of_lt_of_le hcost hprogram
  · have hbefore : soloCost u = op.cost (heldCount u.shared) +
        programCost (heldCount u.shared + op.enters) left := by
      rw [soloCost, hout, htodo, elim_none, Nat.zero_add, programCost]
    rw [hbefore]
    cases hstage.nextOp htodo with
    | schedule front todo hop hfront =>
      have henters := enters_of_schedules hop
      rw [henters, Nat.add_zero]
      rcases exec_schedules hop e hg with ⟨s, more, hdone, hmore, hcost⟩ | ⟨rfl, henter⟩
      · have hheld := heldCount_exec hg hdone (.inl fun t ht => by rwa [move_of_schedules hop] at ht)
        rw [henters, Nat.add_zero] at hheld
        calc soloCost u'
            ≤ programCost (heldCount u.shared) (more ++ left) :=
              soloCost_le hstep (soloStep_of_done hout htodo hdone) hheld
          _ = programCost (heldCount u.shared) more + programCost (heldCount u.shared) left :=
              programCost_append hmore _ _
          _ < _ := Nat.add_lt_add_right hcost _
      · obtain rfl := Option.some.inj (hstep.symm.trans (soloStep_of_enter hout htodo henter))
        simp only [soloCost, elim_some, Pass.cost, Instr.cost, length_nil]
        omega
    | forget r left' hrest todo =>
      have hdone : (forgetTask r.1).exec e u.shared = some (.done _ []) := rfl
      have hheld := heldCount_exec hg hdone (.inl fun _ ht => ht)
      exact lt_of_le_of_lt (soloCost_le hstep (soloStep_of_done hout htodo hdone) hheld)
        (Nat.lt_add_of_pos_left Nat.zero_lt_one)
    | enter r left' hrest todo gone absent =>
      obtain ⟨s, hdone⟩ := exec_enterTask hg gone absent e r.2
      have hheld := heldCount_exec hg hdone (.inr ⟨r.1, r.2, rfl⟩)
      exact lt_of_le_of_lt (soloCost_le hstep (soloStep_of_done hout htodo hdone) hheld)
        (Nat.lt_add_of_pos_left Nat.zero_lt_one)

theorem Pass.inside_succeeds (s : Master) (p : Pass) : ∃ r, p.inside {} s = some r := by
  cases p with
  | assign todo =>
    cases todo with
    | nil => exact ⟨_, rfl⟩
    | cons d todo =>
      simp only [inside]
      split <;> exact ⟨_, rfl⟩
  | failUnresolvable todo | findDeadlocked hasRunning todo deadlocked | failDeadlocked todo =>
    cases todo <;> exact ⟨_, rfl⟩
  | _ => exact ⟨_, rfl⟩

/-- The assertion of `add_task` fails for an id that the graph holds. -/
theorem enterTask_fails (hg : s.graph.GraphInv) (hheld : s.graph.Holds id) (clock : ℕ → Now)
    (spec : TaskSubmissionSpec) : s.enterTask clock id spec = none := by
  rw [hg.holds_iff] at hheld
  have hadd : s.graph.addTask clock id spec.inputs spec.requirements = none := by
    rw [← not_isSome_iff_eq_none]
    intro hsome
    have hdeps := (step_isSome (.addTask clock id spec.inputs spec.requirements) s.graph).mp hsome id rfl
    rw [hdeps] at hheld
    cases hheld
  rw [Master.enterTask, hadd]
  exact bind_fun_none _

theorem soloStep_enterTask_fails (hout : u.inside? = none) (htodo : u.todo = .enterTask id spec :: left)
    (hg : u.shared.graph.GraphInv) (hheld : u.shared.graph.Holds id) (e : Outside) :
    masterAgent.soloStep u e = none := by
  have hexec : (enterTask id spec).exec e u.shared = none := by
    rw [Instr.exec, enterTask_fails hg hheld, map_none]
  simp only [soloStep, hout, htodo, masterAgent, hexec]

/-- **The call is through or goes on.** -/
theorem Sound.progress (h : Sound u rest) :
    (u.next = none ∧ rest = []) ∨ ∃ u', masterAgent.soloStep u {} = some u' := by
  obtain ⟨hordered, -, hstage⟩ := h
  have hg := hordered.placed.graph
  cases hin : u.inside? with
  | some p =>
    obtain ⟨r, hr⟩ := p.inside_succeeds u.shared
    refine .inr ⟨⟨r.1, r.2, u.todo⟩, ?_⟩
    simp only [Threaded.soloStep, hin, masterAgent, hr, map_some]
  | none =>
    cases htodo : u.todo with
    | nil =>
      refine .inl ⟨by rw [Solo.next, hin, htodo]; rfl, ?_⟩
      cases hstage with
      | scheduling front rest todo hfront =>
        rw [htodo] at todo
        cases rest with
        | nil => rfl
        | cons r rest => simp [restartRest_cons] at todo
      | entering id spec rest todo =>
        rw [htodo] at todo
        cases todo
    | cons op left =>
      have hexec : ∃ o, op.exec {} u.shared = some o := by
        cases hstage.nextOp htodo with
        | schedule front todo hop hfront =>
          rcases exec_schedules hop {} hg with ⟨s', more, hdone, -⟩ | ⟨-, henter⟩
          · exact ⟨_, hdone⟩
          · exact ⟨_, henter⟩
        | forget r left' hrest todo => exact ⟨_, rfl⟩
        | enter r left' hrest todo gone absent =>
          obtain ⟨s', hdone⟩ := exec_enterTask hg gone absent {} r.2
          exact ⟨_, hdone⟩
      obtain ⟨o, ho⟩ := hexec
      cases o with
      | done s' more => exact .inr ⟨_, soloStep_of_done hin htodo ho⟩
      | enter p => exact .inr ⟨_, soloStep_of_enter hin htodo ho⟩

/-! ### The whole call -/

theorem restartLoop_sound (hp : Placed s) (records : List FailedTaskRecord) :
    Sound (restartLoop s records) (submissions records) :=
  ⟨⟨hp, by simp [restartLoop]⟩, by simp [restartLoop], .scheduling [] _ rfl (by simp)⟩

theorem submitted_append (l l' : List (Instr ⊕ Pass)) :
    submitted (l ++ l') = submitted l ++ submitted l' := filterMap_append

theorem givenUp_append (l l' : List (Instr ⊕ Pass)) : givenUp (l ++ l') = givenUp l ++ givenUp l' :=
  filterMap_append

/-- The trace as far as the call has come, against its records and the tasks of before. -/
structure Progress (t₀ : MasterSolo) (subs : List (ℕ × TaskSubmissionSpec)) (outs : List Outside)
    (u : MasterSolo) : Prop where
  reached : run masterAgent.soloStep t₀ outs = some u
  submitted : ∃ left, Sound u left ∧ submitted (masterAgent.trace t₀ outs) ++ left = subs
  kept : Kept t₀.shared u.shared (givenUp (masterAgent.trace t₀ outs))
  bounded : outs.length + soloCost u ≤ soloCost t₀

theorem progress_run {t₀ : MasterSolo} {subs : List (ℕ × TaskSubmissionSpec)}
    (hsound : Sound t₀ subs) (hrun : run masterAgent.soloStep t₀ outs = some u)
    (hfresh : FreshRecords t₀ outs) : Progress t₀ subs outs u := by
  refine run_history (I := Progress t₀ subs) ?_ ?_ hrun
  · refine ⟨rfl, ⟨subs, hsound, rfl⟩, fun t info hlive => ?_, by simp⟩
    exact .inr ⟨info, hlive.1, rfl, .inl rfl⟩
  · rintro hist e rest v v' hsplit hreached ⟨-, ⟨left, hleft, hsubs⟩, hkept, hbound⟩ hstep
    have hnow : ∀ id, v.next = some (.inl (.forgetTask id)) → Fresh t₀.shared v.shared id :=
      fun id hnext => hfresh hist e rest v id hsplit hreached hnext
    have htrace := trace_concat hreached hstep
    refine ⟨?_, ?_, ?_, ?_⟩
    · exact run_concat.mpr ⟨v, hreached, hstep⟩
    · obtain ⟨left', hsound', hsub⟩ := hleft.step hstep fun id hnext => (hnow id hnext).2
      refine ⟨left', hsound', ?_⟩
      rw [htrace, submitted_append, append_assoc, hsub, hsubs]
    · rw [htrace, givenUp_append]
      exact hkept.step hleft hstep hnow
    · have hless := soloCost_lt hleft hstep
      rw [length_append, length_singleton]
      omega

/-- **A restart is all or nothing.**  There is nothing to submit, and neither the files nor the tables
change; or the file is removed and its records are submitted one after another.  If every record is fresh
when its turn comes, no assertion stops the loop, it ends after a bounded number of steps with every
record submitted exactly once, and along the way the tasks of before are still there, but for pending
ones that a scheduling pass gave up. -/
theorem restart_all_or_nothing {acts : List MasterAction} {w : MasterWorld}
    (hrun : run masterAgent.step init acts = some w) {c : RestartInput}
    {records : List FailedTaskRecord} {files : Table String Bytes}
    (hcall : c.prepare = some (records, files)) :
    ((records = [] ∧ files = c.files ∧ (restartLoop w.shared records).next = none) ∨
      (records ≠ [] ∧ files = c.files.erase c.filePath ∧ ∃ file read,
        c.files.lookup c.filePath = some file ∧
        readFailedRecords c.limit c.decode file = some read ∧
        records = read.map (rewriteRecord c.dbUidIndex (oldToNew c.dbUidIndex read) c.filePath))) ∧
    ∀ outs u, run masterAgent.soloStep (restartLoop w.shared records) outs = some u →
      FreshRecords (restartLoop w.shared records) outs →
      submitted (masterAgent.trace (restartLoop w.shared records) outs) <+: submissions records ∧
      (u.next = none → submitted (masterAgent.trace (restartLoop w.shared records) outs) =
        submissions records) ∧
      Kept w.shared u.shared (givenUp (masterAgent.trace (restartLoop w.shared records) outs)) ∧
      (u.next = none ∨ ∃ e u', masterAgent.soloStep u e = some u') ∧
      outs.length ≤ soloCost (restartLoop w.shared records) := by
  have hp : Placed w.shared := (ordered_run hrun).placed
  refine ⟨?_, fun outs u hreach hfresh => ?_⟩
  · rcases prepare_cases hcall with ⟨rfl, hfiles⟩ | hsome
    · exact .inl ⟨rfl, hfiles, rfl⟩
    · exact .inr hsome
  · obtain ⟨-, ⟨left, hleft, hsubs⟩, hkept, hbound⟩ :=
      progress_run (restartLoop_sound hp records) hreach hfresh
    refine ⟨⟨left, hsubs⟩, fun hthrough => ?_, hkept, ?_, by omega⟩
    · rcases hleft.progress with ⟨-, hnil⟩ | ⟨u', hstep⟩
      · rw [← hsubs, hnil, append_nil]
      -- a thread that is through makes no further step
      rcases soloStep_cases hstep with ⟨p, s, p', -, hnext, -⟩ | ⟨op, rest, -, -, hnext, -⟩
      all_goals
        rw [hthrough] at hnext
        cases hnext
    · rcases hleft.progress with ⟨hthrough, -⟩ | ⟨u', hstep⟩
      · exact .inl hthrough
      · exact .inr ⟨{}, u', hstep⟩

/-- If nobody holds the mutex, what the call does by itself is what the master does when it is called
and the other threads stand still. -/
theorem restart_run_eq (hfree : w.holder = none) (records : List FailedTaskRecord) (outs : List Outside) :
    run masterAgent.step w (.call (.restartFailedTasks (submissions records)) ::
      outs.map (.step w.threads.length)) =
    (run masterAgent.soloStep (restartLoop w.shared records) outs).map
      (World.withThread { w with threads := w.threads ++ [(restartLoop w.shared records).todo] }
        w.threads.length) := by
  rw [← run_withThread (by simp)]
  refine run_cons_of_step ?_ _
  show some _ = some _
  rw [World.withThread]
  simp [restartLoop, hfree, masterAgent]

/-! ### Records that are fresh -/

/-- Where the call stands: the graph has got no ids but those submitted so far. -/
def HeldSince (s : Master) (subs : List (ℕ × TaskSubmissionSpec)) (u : MasterSolo) : Prop :=
  ∃ done left, subs = done ++ left ∧ Sound u left ∧
    ∀ t, u.shared.graph.Holds t → s.graph.Holds t ∨ t ∈ done.map fst

section Distinct

variable {subs : List (ℕ × TaskSubmissionSpec)} (hnodup : (subs.map fst).Nodup)
  (hnew : ∀ r ∈ subs, Fresh s s r.1)
include hnodup hnew

theorem HeldSince.fresh (h : HeldSince s subs u)
    (hnext : u.next = some (.inl (.forgetTask id))) : Fresh s u.shared id := by
  obtain ⟨done, left, rfl, hsound, hheld⟩ := h
  obtain ⟨todo, htodo⟩ := todo_of_next hnext
  cases hsound.stage.nextOp htodo with
  | schedule front todo hop hfront => cases hop
  | forget r left' hrest todo =>
    subst hrest
    obtain ⟨hlive, habsent⟩ := hnew r (by simp)
    refine ⟨hlive, fun hholds => ?_⟩
    rcases hheld r.1 hholds with hbefore | hdone
    · exact habsent hbefore
    · rw [map_append, nodup_append] at hnodup
      exact hnodup.2.2 r.1 hdone r.1 (by simp) rfl

theorem HeldSince.step (h : HeldSince s subs u) (hstep : masterAgent.soloStep u e = some u') :
    HeldSince s subs u' := by
  have hfresh : ∀ id, u.next = some (.inl (.forgetTask id)) → ¬u.shared.graph.Holds id :=
    fun id hnext => (h.fresh hnodup hnew hnext).2
  obtain ⟨done, left, rfl, hsound, hheld⟩ := h
  have hg := hsound.ordered.placed.graph
  obtain ⟨left', hsound', hsub⟩ := hsound.step hstep hfresh
  refine ⟨done ++ submitted u.next.toList, left', ?_, hsound', fun t ht => ?_⟩
  · rw [append_assoc, hsub]
  · rw [map_append, mem_append]
    rcases soloStep_cases hstep with ⟨p, v, p', hin, hnext, hinside, rfl⟩ |
      ⟨op, rest, hout, htodo, hnext, hexec⟩
    · have hbefore := held_of_move (((describes hg hinside).held t).mp ht)
      exact (hheld t hbefore).imp_right .inl
    rcases hexec with ⟨v, more, hdone, rfl⟩ | ⟨p, -, rfl⟩
    · have hafter := ((describes hg hdone).held t).mp ht
      cases hsound.stage.nextOp htodo with
      | schedule front todo hop hfront =>
        rw [move_of_schedules hop] at hafter
        exact (hheld t hafter).imp_right .inl
      | forget r left'' hrest todo => exact (hheld t hafter).imp_right .inl
      | enter r left'' hrest todo gone absent =>
        rcases hafter with rfl | hafter
        · exact .inr (.inr (by rw [hnext]; exact mem_singleton_self _))
        · exact (hheld t hafter).imp_right .inl
    · exact (hheld t ht).imp_right .inl

end Distinct

/-- **Different ids that are new to the master are fresh all along.** -/
theorem freshRecords_of_distinct (hp : Placed s) {records : List FailedTaskRecord}
    (hnodup : ((submissions records).map fst).Nodup)
    (hnew : ∀ r ∈ submissions records, Fresh s s r.1) (outs : List Outside) :
    FreshRecords (restartLoop s records) outs := by
  intro pre e post u id _ hrun hnext
  have hsince : HeldSince s (submissions records) u :=
    run_invariant (I := HeldSince s (submissions records)) (fun _ _ _ _ h hstep => h.step hnodup hnew hstep)
      ⟨[], _, rfl, restartLoop_sound hp records, fun t ht => .inl ht⟩ hrun
  exact hsince.fresh hnodup hnew hnext

/-! ### Two restarts -/

/-- A file with one record of task `id`; the codec of the example writes an id as one byte. -/
def oneRecord (id : UInt8) : RestartInput where
  limit := 1000
  decode body := body.head?.map fun b =>
    { taskId := b.toNat, submission := { args := ["__fly_kwargs__:"] } }
  files := (∅ : Table String Bytes).insert "/base/failed_tasks.bin" (toLE 8 1 ++ [id])
  filePath := "/base/failed_tasks.bin"

/-- Worker 1 is there, task 1 has been submitted, and no scheduling pass has run since. -/
def waitingRun : List MasterAction := registeredRun ++ [.call (.submitTask 1 {}), .step 1 {}]

/-- The restarted task is entered, and the scheduling pass gives task 1 to worker 1. -/
def assigningOuts : List Outside :=
  [{}, {}, {}, {}, {}, {}, { decision := some (1, 1) }, {}, {}, {}, {}, {}, {}, {}]

/-- A restart from the file of `c` while task 1 waits: the world before, and the call after its steps. -/
def restartedFrom (c : RestartInput) (outs : List Outside) : Option (MasterWorld × MasterSolo) :=
  (run masterAgent.step init waitingRun).bind fun w =>
    c.prepare.bind fun r =>
      (run masterAgent.soloStep (restartLoop w.shared r.1) outs).map fun u => (w, u)

theorem exists_restartedFrom (c : RestartInput) (outs : List Outside) (p : MasterWorld → MasterSolo → Prop)
    [∀ w u, Decidable (p w u)] (h : (restartedFrom c outs).any (fun r => decide (p r.1 r.2)) = true) :
    ∃ w records files u, run masterAgent.step init waitingRun = some w ∧
      c.prepare = some (records, files) ∧
      run masterAgent.soloStep (restartLoop w.shared records) outs = some u ∧ p w u := by
  obtain ⟨⟨w, u⟩, h, hp⟩ := exists_of_decide (p := fun r : MasterWorld × MasterSolo => p r.1 r.2) h
  obtain ⟨w', hrun, h⟩ := bind_eq_some_iff.mp h
  obtain ⟨⟨records, files⟩, hcall, h⟩ := bind_eq_some_iff.mp h
  obtain ⟨u', hreach, heq⟩ := map_eq_some_iff.mp h
  cases heq
  exact ⟨w, records, files, u, hrun, hcall, hreach, hp⟩

/-- A restart of task 2 while task 1 waits: task 2 is new, and is submitted. -/
theorem restart_all_or_nothing_newTask : ∃ w records files u,
    run masterAgent.step MasterWorld.init waitingRun = some w ∧
    (oneRecord 2).prepare = some (records, files) ∧
    run masterAgent.soloStep (restartLoop w.shared records) assigningOuts = some u ∧
    (restartLoop w.shared records).todo.length = 3 ∧
    submitted (masterAgent.trace (restartLoop w.shared records) assigningOuts) <+:
      submissions records ∧
    Kept w.shared u.shared (givenUp (masterAgent.trace (restartLoop w.shared records) assigningOuts)) := by
  obtain ⟨w, records, files, u, hrun, hcall, hreach, hnew, hstatus⟩ :=
    exists_restartedFrom (oneRecord 2) assigningOuts
    (fun w _ => ¬w.shared.graph.Holds 2 ∧ w.shared.metadata.statusOf 2 = none) (by decide +kernel)
  have hids : (oneRecord 2).prepare.map (fun r => (submissions r.1).map fst) = some [2] := by
    decide +kernel
  rw [hcall, map_some, Option.some.injEq] at hids
  have hfresh : ∀ r ∈ submissions records, Fresh w.shared w.shared r.1 := by
    intro r hr
    have hid : r.1 = 2 := by
      have hmem := mem_map_of_mem (f := fst) hr
      rw [hids] at hmem
      exact mem_singleton.mp hmem
    rw [hid]
    refine ⟨fun info hlive => ?_, hnew⟩
    rw [TaskManager.statusOf, hlive.1] at hstatus
    cases hstatus
  obtain ⟨-, hloop⟩ := restart_all_or_nothing hrun hcall
  obtain ⟨hpre, -, hkept, -⟩ := hloop assigningOuts u hreach
    (freshRecords_of_distinct (ordered_run hrun).placed (by rw [hids]; simp) hfresh _)
  refine ⟨w, records, files, u, hrun, hcall, hreach, ?_, hpre, hkept⟩
  have hlen : (submissions records).length = 1 := by
    rw [← length_map (f := fst), hids]
    rfl
  simp [restartLoop, Handler.program, hlen]

/-- **What a restart does to a task that waits.**  Task 1 is pending.  After a restart of another task the
scheduling pass of the call has given it to a worker.  A restart from a file with a record of id 1 takes
it out of the task table, and then stops at the assertion of `add_task`, whatever the outside does. -/
theorem restart_touches_waiting_task :
    (∃ w records files u, run masterAgent.step MasterWorld.init waitingRun = some w ∧
      w.shared.metadata.statusOf 1 = some .pending ∧
      (oneRecord 2).prepare = some (records, files) ∧
      run masterAgent.soloStep (restartLoop w.shared records) assigningOuts = some u ∧
      u.shared.metadata.statusOf 1 = some .running) ∧
    ∃ w records files u, run masterAgent.step MasterWorld.init waitingRun = some w ∧
      w.shared.metadata.statusOf 1 = some .pending ∧
      (oneRecord 1).prepare = some (records, files) ∧ records.length = 1 ∧
      run masterAgent.soloStep (restartLoop w.shared records) [{}] = some u ∧
      u.shared.metadata.statusOf 1 = none ∧ u.next ≠ none ∧
      ∀ e, masterAgent.soloStep u e = none := by
  constructor
  · obtain ⟨w, records, files, u, hrun, hcall, hreach, hpending, hrunning⟩ :=
      exists_restartedFrom (oneRecord 2) assigningOuts
        (fun w u => w.shared.metadata.statusOf 1 = some .pending ∧
        u.shared.metadata.statusOf 1 = some .running) (by decide +kernel)
    exact ⟨w, records, files, u, hrun, hpending, hcall, hreach, hrunning⟩
  · obtain ⟨w, records, files, u, hrun, hcall, hreach, hpending, hgone, hheld⟩ :=
      exists_restartedFrom (oneRecord 1) [{}] (fun w u => w.shared.metadata.statusOf 1 = some .pending ∧
        u.shared.metadata.statusOf 1 = none ∧ w.shared.graph.Holds 1) (by decide +kernel)
    have hids : (oneRecord 1).prepare.map (fun r => r.1.map FailedTaskRecord.taskId) = some [1] := by
      decide +kernel
    rw [hcall, map_some, Option.some.injEq] at hids
    obtain ⟨r, rfl, hid⟩ : ∃ r, records = [r] ∧ r.taskId = 1 := map_eq_singleton_iff.mp hids
    refine ⟨w, [r], files, u, hrun, hpending, hcall, rfl, hreach, hgone, ?_⟩
    -- the record has been taken out of the table, and its submission comes next
    cases hreach
    refine ⟨by simp [Solo.next, restartLoop, submissions, Handler.program], fun e => ?_⟩
    rw [← hid] at hheld
    exact soloStep_enterTask_fails rfl rfl ((ordered_run hrun).placed.graph) hheld e

end Fly.Agent
