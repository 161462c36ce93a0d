import Fly.Task.TaskSlot
import Mathlib.Data.List.Induction

/-!
# Readiness of the tasks in the dependency graph

What `ready_tasks_` and `pending_tasks_` say about a task, over every sequence of calls from the empty
graph.

* `SlotInv` — what the containers promise about one task in every reachable graph (`SlotInv.act`): it
  is ready or pending, never both, and a ready task has all its inputs marked.
* `Watched` — the converse promise, that a pending task will be woken: it waits for some input, and
  the reverse index lists it under *every* input it waits for.  This one is not kept by every call:
  `mark_data_removed` re-indexes ready tasks only, and a task whose id was removed once stays in
  `completed_tasks_`, where `check_and_move_to_ready` turns it away.
* `GraphOp.Safe` — the calls that keep it, as a condition on the graph before the call.
* `readiness_iff_safe` — **no wake-up is lost, now or after further marks, exactly if every call was
  safe.**
-/

namespace Fly.Task

open Fly.Lib Option GraphOp DependencyGraph Slot AList

/-! ### The invariant of a slot -/

/-- What the containers promise about one task while the paths are marked as `met` says. -/
structure SlotInv (met : String → Bool) (s : Slot) : Prop where
  held : s.deps.isSome = (s.ready || s.pending)
  excl : s.ready = true → s.pending = false
  ready_met : s.ready = true → ∀ d ∈ s.inputs, met d = true
  indexed_pending : ∀ d ∈ s.indexed, s.pending = true ∧ d ∈ s.inputs

/-- A pending task that the next marks of its inputs will wake: `check_and_move_to_ready` does not
turn it away, some input is unmarked, and every unmarked input leads to it. -/
structure Watched (met : String → Bool) (s : Slot) : Prop where
  fresh : s.pending = true → s.completed = false
  unmet : s.pending = true → ∃ d ∈ s.inputs, met d = false
  indexed : s.pending = true → ∀ d ∈ s.inputs, met d = false → d ∈ s.indexed

variable {inputs : List String} {now : ℕ → Now} {id : ℕ} {reqs : TaskRequirements}

namespace SlotInv

variable {met : String → Bool} {s : Slot}

section

variable (h : SlotInv met s)

include h

theorem flags_eq_false (hd : s.deps = none) : s.ready = false ∧ s.pending = false := by
  have hheld := h.held
  rw [hd, isSome_none] at hheld
  exact Bool.or_eq_false_iff.mp hheld.symm

theorem indexed_eq_empty (hd : s.deps = none) : s.indexed = ∅ := by
  refine Set.eq_empty_of_forall_notMem fun d hin => ?_
  have hpending := (h.indexed_pending d hin).1
  rw [(h.flags_eq_false hd).2] at hpending
  cases hpending

theorem ready_of_not_pending (hd : s.deps = some inputs) (hp : s.pending = false) : s.ready = true := by
  have hheld := h.held
  rw [hd, hp, Bool.or_false, isSome_some] at hheld
  exact hheld.symm

theorem not_ready_of_pending (hp : s.pending = true) : s.ready = false := by
  cases hr : s.ready with
  | false => rfl
  | true => exact absurd hp (by rw [h.excl hr]; exact Bool.false_ne_true)

theorem add (hd : s.deps = none) (now : Now) (inputs : List String)
    (reqs : TaskRequirements) : SlotInv met (s.add met now inputs reqs) := by
  obtain ⟨hr, hp⟩ := h.flags_eq_false hd
  have hi := h.indexed_eq_empty hd
  cases hall : inputs.all met with
  | true =>
    have hmet : ∀ d ∈ inputs, met d = true := List.all_eq_true.mp hall
    refine ⟨by simp [Slot.add, hall], by simp [Slot.add, hp, hall], fun _ => hmet, ?_⟩
    rintro d (hd | ⟨hd, hunmet⟩)
    · rw [hi] at hd
      exact hd.elim
    · rw [hmet d hd] at hunmet
      cases hunmet
  | false =>
    refine ⟨by simp [Slot.add, hall], by simp [Slot.add, hr, hall], by simp [Slot.add, hr, hall], ?_⟩
    rintro d (hd | ⟨hd, -⟩)
    · rw [hi] at hd
      exact hd.elim
    · exact ⟨by simp [Slot.add, hall], hd⟩

theorem wake (now : Now) : SlotInv met (s.wake met now) := by
  unfold Slot.wake
  split
  case isTrue hg =>
    obtain ⟨-, -, hp, hall⟩ := hg
    have hsome : s.deps.isSome = true := by rw [h.held, hp, Bool.or_true]
    refine ⟨by simpa using hsome, fun _ => rfl, fun _ => List.all_eq_true.mp hall, ?_⟩
    rintro d ⟨hin, hnot⟩
    exact absurd (h.indexed_pending d hin).2 hnot
  case isFalse hg => exact h

theorem demote (met' : String → Bool) (hr : s.ready = true) : SlotInv met' (s.demote met') := by
  have hsome : s.deps.isSome = true := by rw [h.held, hr, Bool.true_or]
  refine ⟨by simpa [Slot.demote] using hsome, fun hready => (nomatch hready),
    fun hready => (nomatch hready), ?_⟩
  rintro d (hd | hd)
  · exact ⟨rfl, (h.indexed_pending d hd).2⟩
  · exact ⟨rfl, hd.1⟩

theorem remove : SlotInv met s.remove := by
  refine ⟨rfl, fun _ => rfl, fun hr => (nomatch hr), ?_⟩
  rintro d ⟨hin, hnot⟩
  exact absurd (h.indexed_pending d hin).2 hnot

/-- **Step lemma.**  Every call keeps the promise about every task. -/
theorem act (op : GraphOp) (t : ℕ) (hadd : op.adds = some t → s.deps = none) :
    SlotInv (op.met met) (op.act t met s) := by
  cases op with
  | addTask now id inputs reqs =>
    show SlotInv met (if t = id then _ else s)
    split
    case isTrue ht => exact h.add (hadd (by rw [ht]; rfl)) _ _ _
    case isFalse => exact h
  | markDataReady now path =>
    have hmono : SlotInv (fun p => met p || p == path) s :=
      ⟨h.held, h.excl, fun hr d hd => by rw [h.ready_met hr d hd, Bool.true_or], h.indexed_pending⟩
    simp only [GraphOp.act]
    split
    case isTrue => exact hmono.wake _
    case isFalse => exact hmono
  | markDataRemoved path =>
    show SlotInv _ (if _ then _ else s)
    split
    case isTrue hg => exact h.demote _ hg.1
    case isFalse hg =>
      refine ⟨h.held, h.excl, ?_, h.indexed_pending⟩
      intro hr d hd
      have hne : d ≠ path := by
        rintro rfl
        exact hg ⟨hr, hd⟩
      simp [GraphOp.met, h.ready_met hr d hd, hne]
  | setTaskLocalityHint id hints =>
    show SlotInv met (if t = id then _ else s)
    split
    · exact ⟨h.held, h.excl, h.ready_met, h.indexed_pending⟩
    · exact h
  | removeTask id =>
    show SlotInv met (if t = id then _ else s)
    split
    · exact h.remove
    · exact h

end

end SlotInv

/-! ### The invariant of a graph, over whole runs -/

namespace DependencyGraph

variable {g g' : DependencyGraph}

/-- The invariant of every reachable graph. -/
structure GraphInv (g : DependencyGraph) : Prop where
  keys : g.KeysCurrent
  slots : ∀ t, SlotInv g.isDataReady (g.slot t)

theorem deps_of_step {op : GraphOp} (hstep : op.step g = some g') :
    ∀ t, op.adds = some t → (g.slot t).deps = none :=
  (step_isSome op g).mp (isSome_iff_exists.mpr ⟨g', hstep⟩)

theorem graphInv_empty : GraphInv {} := by
  refine ⟨fun k hk => absurd hk (SortedSet.notMem_empty k), fun t => ?_⟩
  exact ⟨rfl, fun _ => rfl, fun hr => (nomatch hr), fun d hd => (nomatch hd)⟩

theorem KeysCurrent.stampReady (h : g.KeysCurrent) (now : ℕ → Now) (id : ℕ) :
    (g.stampReady now (g.priorityOf id) id).KeysCurrent := by
  intro k hk
  rcases SortedSet.mem_insert.mp hk with rfl | hk
  · rfl
  · exact h k hk

theorem KeysCurrent.checkAndMoveToReady (h : g.KeysCurrent) (now : ℕ → Now) (id : ℕ) :
    ((g.checkAndMoveToReady now id).getD g).KeysCurrent := by
  have hunpark : (g.unpark id).KeysCurrent := h.of_eq rfl fun _ _ => rfl
  rw [checkAndMoveToReady_eq]
  split
  · exact (hunpark.stampReady now id).of_eq rfl fun _ _ => rfl
  · exact h

theorem GraphInv.keys_addTask (h : g.GraphInv) (hstep : g.addTask now id inputs reqs = some g') :
    g'.KeysCurrent := by
  have hdeps : (g.slot id).deps = none :=
    @deps_of_step _ _ (.addTask now id inputs reqs) hstep id rfl
  have hnot : id ∉ g.getReadyTasks := by
    rw [← slot_ready, ((h.slots id).flags_eq_false hdeps).1]
    exact Bool.false_ne_true
  -- the new requirements entry concerns a task that has no key
  have henter : (g.enter id inputs reqs).KeysCurrent := by
    refine h.keys.of_eq rfl fun t ht => ?_
    have hne : t ≠ id := by
      rintro rfl
      exact hnot ht
    show ((lookup t (g.taskRequirements.insert id reqs)).getD {}).priority = _
    rw [lookup_insert_ne hne]
    rfl
  rcases addTask_cases hstep with ⟨-, rfl⟩ | ⟨-, rfl⟩
  · have hprio : reqs.priority = (g.enter id inputs reqs).priorityOf id := by
      simp [priorityOf, getTaskRequirements, enter, index]
    rw [hprio]
    exact henter.stampReady now id
  · exact henter.of_eq rfl fun _ _ => rfl

theorem KeysCurrent.removeTask (h : g.KeysCurrent) (id : ℕ) : (g.removeTask id).KeysCurrent := by
  refine (h.unready id).of_eq rfl fun t ht => ?_
  have hne : t ≠ id := ((h.mem_getReadyTasks_erase rfl t).mp ht).1
  show ((lookup t (g.taskRequirements.erase id)).getD {}).priority = _
  rw [lookup_erase_ne hne]
  rfl

/-- **Step lemma.**  Every call that does not fail keeps the invariant. -/
theorem GraphInv.step (h : g.GraphInv) {op : GraphOp} (hstep : op.step g = some g') :
    g'.GraphInv := by
  constructor
  · cases op with
    | addTask now id inputs reqs => exact h.keys_addTask hstep
    | markDataReady now path =>
      cases hstep
      have hmarked : KeysCurrent { g with dataReadyStatus := g.dataReadyStatus.insert path true } :=
        h.keys.of_eq rfl fun _ _ => rfl
      exact List.foldlRecOn _ _ hmarked fun _ h id _ => h.checkAndMoveToReady now id
    | markDataRemoved path =>
      cases hstep
      have herased : KeysCurrent { g with dataReadyStatus := g.dataReadyStatus.erase path } :=
        h.keys.of_eq rfl fun _ _ => rfl
      exact List.foldlRecOn _ _ herased fun _ h id _ => h.demote id
    | setTaskLocalityHint id hint =>
      cases hstep
      refine h.keys.of_eq rfl fun t _ => ?_
      show ((lookup t (Table.modify g.taskRequirements id _)).getD {}).priority = _
      rw [Table.lookup_modify, priorityOf, getTaskRequirements]
      split
      case isTrue ht =>
        subst ht
        cases g.taskRequirements.lookup t <;> rfl
      case isFalse => rfl
    | removeTask id =>
      cases hstep
      exact h.keys.removeTask id
  · intro t
    rw [h.keys.slot_step hstep, isDataReady_step hstep]
    exact (h.slots t).act op t (deps_of_step hstep t)

theorem graphInv_run {ops : List GraphOp} (hrun : run step {} ops = some g) : g.GraphInv :=
  run_invariant (fun _ _ _ _ hs hstep => GraphInv.step hs hstep) graphInv_empty hrun

end DependencyGraph

/-! ### Live tasks, read off the calls -/

/-- Task `t` was added with these inputs and not removed since. -/
def Live (ops : List GraphOp) (t : ℕ) (inputs : List String) : Prop :=
  ∃ pre now reqs post, ops = pre ++ addTask now t inputs reqs :: post ∧ removeTask t ∉ post

variable {ops : List GraphOp} {g g' : DependencyGraph} {op : GraphOp} {t : ℕ}

theorem live_concat : Live (ops ++ [op]) t inputs ↔
      (∃ now reqs, op = .addTask now t inputs reqs) ∨ (op ≠ .removeTask t ∧ Live ops t inputs) := by
  constructor
  · rintro ⟨pre, now, reqs, post, heq, hno⟩
    rcases concat_eq_append_cons_iff.mp heq with ⟨-, rfl, -⟩ | ⟨post, rfl, hops⟩
    · exact .inl ⟨now, reqs, rfl⟩
    · rw [List.mem_append, List.mem_singleton, not_or] at hno
      exact .inr ⟨Ne.symm hno.2, pre, now, reqs, post, hops, hno.1⟩
  · rintro (⟨now, reqs, rfl⟩ | ⟨hop, pre, now, reqs, post, rfl, hno⟩)
    · exact ⟨ops, now, reqs, [], rfl, List.not_mem_nil⟩
    · refine ⟨pre, now, reqs, post ++ [op], by simp, ?_⟩
      rw [List.mem_append, List.mem_singleton, not_or]
      exact ⟨hno, Ne.symm hop⟩

/-- Which calls change the dependencies of a task. -/
theorem GraphOp.act_deps (op : GraphOp) (t : ℕ) (met : String → Bool) (s : Slot) : (op.act t met s).deps =
      match op with
      | .addTask _ id inputs _ => if t = id then some inputs else s.deps
      | .removeTask id => if t = id then none else s.deps
      | _ => s.deps := by
  cases op with
  | markDataReady now path =>
    simp only [act, wake]
    repeat' split
    all_goals rfl
  | _ =>
    simp only [act]
    split <;> rfl

namespace DependencyGraph

/-- The task is in the graph, ready or pending. -/
def Holds (g : DependencyGraph) (t : ℕ) : Prop := t ∈ g.getReadyTasks ∨ t ∈ g.getPendingTasks

instance (g : DependencyGraph) (t : ℕ) : Decidable (g.Holds t) :=
  inferInstanceAs (Decidable (_ ∨ _))

variable {g g' : DependencyGraph}

theorem GraphInv.holds_iff (h : g.GraphInv) : g.Holds t ↔ (g.slot t).deps.isSome = true := by
  rw [(h.slots t).held, Bool.or_eq_true, slot_ready, slot_pending]
  exact Iff.rfl

/-- Only adding and removing a task change what the graph holds. -/
theorem GraphInv.holds_step (h : g.GraphInv) (hstep : op.step g = some g') (t : ℕ) :
    g'.Holds t ↔ match op with
      | .addTask _ id _ _ => t = id ∨ g.Holds t
      | .removeTask id => t ≠ id ∧ g.Holds t
      | _ => g.Holds t := by
  rw [(h.step hstep).holds_iff, h.keys.slot_step hstep, act_deps, h.holds_iff]
  cases op with
  | addTask now id inputs reqs | removeTask id => by_cases ht : t = id <;> simp [ht]
  | _ => exact Iff.rfl

theorem GraphInv.removeTask (h : g.GraphInv) (id : ℕ) :
    (g.removeTask id).GraphInv ∧ ∀ t, (g.removeTask id).Holds t ↔ t ≠ id ∧ g.Holds t := by
  have hstep : (GraphOp.removeTask id).step g = some (g.removeTask id) := rfl
  exact ⟨h.step hstep, h.holds_step hstep⟩

theorem GraphInv.addTask (h : g.GraphInv) (hadd : g.addTask now id inputs reqs = some g') :
    g'.GraphInv ∧ ∀ t, g'.Holds t ↔ t = id ∨ g.Holds t := by
  have hstep : (GraphOp.addTask now id inputs reqs).step g = some g' := hadd
  exact ⟨h.step hstep, h.holds_step hstep⟩

end DependencyGraph

/-- The task table of the graph holds exactly the live tasks. -/
theorem deps_eq_some_iff_live (hrun : run step {} ops = some g) (t : ℕ) (inputs : List String) :
    (g.slot t).deps = some inputs ↔ Live ops t inputs := by
  revert inputs
  refine run_history (I := fun hist g => ∀ inputs,
    (g.slot t).deps = some inputs ↔ Live hist t inputs) (fun inputs => iff_of_false ?_ ?_) ?_ hrun
  · exact nofun
  · rintro ⟨pre, now, reqs, post, heq, -⟩
    simp at heq
  · intro hist op rest g g' _ hreached ih hstep inputs
    have hadds := deps_of_step hstep
    rw [(graphInv_run hreached).keys.slot_step hstep, act_deps, live_concat]
    cases op with
    | addTask now id inputs' reqs =>
      by_cases ht : t = id
      · -- a live task cannot be added again
        subst ht
        have hdead : ∀ i, ¬Live hist t i := by
          intro i hlive
          rw [← ih i, hadds t rfl] at hlive
          cases hlive
        simp [hdead, eq_comm]
      · simp [ht, Ne.symm ht, ih]
    | removeTask id =>
      by_cases ht : t = id
      · simp [ht]
      · simp [ht, Ne.symm ht, ih]
    | _ => simp [ih]

/-! ### Safe calls -/

/-- The calls after which every pending task is still watched, given the graph before the call:

* an id that was removed before is only added again when all its inputs are marked;
* a path is only unmarked when no task that depends on it was removed before, and every pending task
  that depends on it is indexed under it — it was missing already when the task began to wait. -/
def GraphOp.Safe (g : DependencyGraph) : GraphOp → Prop
  | .addTask _ id inputs _ => id ∈ g.completedTasks → inputs.all g.isDataReady = true
  | .markDataRemoved path => ∀ t, path ∈ g.getTaskDependencies t →
      t ∉ g.completedTasks ∧ (t ∈ g.pendingTasks → t ∈ g.indexed path)
  | _ => True

/-- Every call of the sequence is safe in the graph it is made on. -/
def SafeAlong (ops : List GraphOp) : Prop :=
  ∀ pre op post, ops = pre ++ op :: post → ∀ g, run step {} pre = some g → op.Safe g

namespace Watched

variable {met : String → Bool} {s : Slot}

theorem of_not_pending (hp : s.pending = false) : Watched met s := by
  refine ⟨?_, ?_, ?_⟩ <;> simp [hp]

/-- Marking a path wakes the task or leaves another unmarked input that it is indexed under. -/
theorem marked (h : Watched met s) (hinv : SlotInv met s) (path : String) (t : ℕ) (now : ℕ → Now) :
    Watched (fun p => met p || p == path) (act t met s (.markDataReady now path)) := by
  have hindexed : s.pending = true → ∀ d ∈ s.inputs, (met d || d == path) = false → d ∈ s.indexed := by
    intro hp d hd hunmet
    exact h.indexed hp d hd (Bool.or_eq_false_iff.mp hunmet).1
  simp only [act]
  split
  case isTrue hin =>
    unfold wake
    split
    case isTrue => exact of_not_pending rfl
    case isFalse hg =>
      refine ⟨h.fresh, ?_, hindexed⟩
      intro hp
      -- the guard failed although the task is pending and fresh: an input is unmarked
      have hall : ¬s.inputs.all (fun p => met p || p == path) = true := fun hall =>
        hg ⟨h.fresh hp, hinv.not_ready_of_pending hp, hp, hall⟩
      simpa using hall
  case isFalse hnot =>
    refine ⟨h.fresh, ?_, hindexed⟩
    intro hp
    obtain ⟨d, hd, hunmet⟩ := h.unmet hp
    have hne : d ≠ path := by
      rintro rfl
      exact hnot (h.indexed hp d hd hunmet)
    exact ⟨d, hd, by simp [hunmet, hne]⟩

/-- Unmarking a path under which the pending task is indexed. -/
theorem unmarked (h : Watched met s) {path : String}
    (hsafe : path ∈ s.inputs → s.completed = false ∧ (s.pending = true → path ∈ s.indexed)) (t : ℕ) :
    Watched (fun p => met p && p != path) (act t met s (.markDataRemoved path)) := by
  simp only [act]
  split
  case isTrue hg =>
    refine ⟨fun _ => (hsafe hg.2).1, fun _ => ⟨path, hg.2, by simp⟩, ?_⟩
    intro _ d hd hunmet
    exact .inr ⟨hd, hunmet⟩
  case isFalse hg =>
    refine ⟨h.fresh, ?_, ?_⟩
    · intro hp
      obtain ⟨d, hd, hunmet⟩ := h.unmet hp
      exact ⟨d, hd, by simp [hunmet]⟩
    · intro hp d hd hunmet
      by_cases hpath : d = path
      · subst hpath
        exact (hsafe hd).2 hp
      · exact h.indexed hp d hd (by simpa [hpath] using hunmet)

/-- A safe call keeps every task watched. -/
theorem step (hinv : g.GraphInv)
    (hw : ∀ t, Watched g.isDataReady (g.slot t)) (hstep : op.step g = some g') (hsafe : op.Safe g)
    (t : ℕ) : Watched g'.isDataReady (g'.slot t) := by
  have hadds := deps_of_step hstep
  rw [hinv.keys.slot_step hstep, isDataReady_step hstep]
  cases op with
  | addTask now id inputs reqs =>
    show Watched g.isDataReady (if t = id then _ else _)
    split
    case isTrue ht =>
      subst ht
      have hp := ((hinv.slots t).flags_eq_false (hadds t rfl)).2
      cases hall : inputs.all g.isDataReady with
      | true => exact of_not_pending (by simp [add, hp, hall])
      | false =>
        have hunmet : ∃ d ∈ inputs, g.isDataReady d = false := by
          simpa using List.all_eq_false.mp hall
        refine ⟨fun _ => ?_, fun _ => hunmet, ?_⟩
        · cases hc : (g.slot t).completed with
          | false => exact hc
          | true =>
            have := hsafe (slot_completed.mp hc)
            rw [hall] at this
            cases this
        · intro _ d hd hunmet
          exact .inr ⟨hd, hunmet⟩
    case isFalse => exact hw t
  | markDataReady now path => exact (hw t).marked (hinv.slots t) path t now
  | markDataRemoved path =>
    refine (hw t).unmarked ?_ t
    intro hin
    obtain ⟨hc, hidx⟩ := hsafe t hin
    refine ⟨?_, fun hp => hidx (slot_pending.mp hp)⟩
    simpa [DependencyGraph.slot] using hc
  | setTaskLocalityHint id hint =>
    show Watched g.isDataReady (if t = id then _ else _)
    split
    · exact ⟨(hw t).fresh, (hw t).unmet, (hw t).indexed⟩
    · exact hw t
  | removeTask id =>
    show Watched g.isDataReady (if t = id then _ else _)
    split
    · exact of_not_pending rfl
    · exact hw t

end Watched

/-! ### Lost tasks -/

/-- A pending task that no mark of its inputs, made in some order, will wake. -/
def Lost (met : String → Bool) (s : Slot) : Prop :=
  s.pending = true ∧ (s.completed = true ∨ ∃ p ∈ s.inputs, met p = false ∧ p ∉ s.indexed)

/-- Marks leave a pending task alone as long as it is turned away or one input stays unmarked. -/
theorem slot_run_marks (hinv : g.GraphInv) (now : ℕ → Now) (t : ℕ) (paths : List String)
    (hstay : (g.slot t).completed = true ∨ ∃ p ∈ (g.slot t).inputs, g.isDataReady p = false ∧ p ∉ paths)
    (hrun : run step g (paths.map (.markDataReady now)) = some g') :
    g'.slot t = g.slot t ∧ g'.GraphInv ∧
      ∀ p, g'.isDataReady p = (g.isDataReady p || decide (p ∈ paths)) := by
  induction paths generalizing g with
  | nil =>
    cases hrun
    exact ⟨rfl, hinv, fun p => by simp⟩
  | cons path paths ih =>
    have hstep : step g (.markDataReady now path) = some (g.markDataReady now path) := rfl
    have hmet := isDataReady_markDataReady (g := g) now path
    have hsame : (g.markDataReady now path).slot t = g.slot t := by
      rw [slot_markDataReady]
      split
      case isFalse => rfl
      case isTrue =>
        -- the guard of `wake` fails: completed, or an input that is not among the marks
        refine if_neg ?_
        rintro ⟨hc, -, -, hall⟩
        rcases hstay with hstay | ⟨p, hp, hunmet, hnot⟩
        · rw [hstay] at hc
          cases hc
        · have := List.all_eq_true.mp hall p hp
          simp only [hunmet, Bool.false_or, beq_iff_eq] at this
          exact hnot (this ▸ List.mem_cons_self)
    have hstay' : ((g.markDataReady now path).slot t).completed = true ∨
        ∃ p ∈ ((g.markDataReady now path).slot t).inputs,
          (g.markDataReady now path).isDataReady p = false ∧ p ∉ paths := by
      rw [hsame, hmet]
      rcases hstay with hstay | ⟨p, hp, hunmet, hnot⟩
      · exact .inl hstay
      · rw [List.mem_cons, not_or] at hnot
        exact .inr ⟨p, hp, by simp [hunmet, hnot.1], hnot.2⟩
    obtain ⟨hslot, hinv', hmet'⟩ := ih (hinv.step hstep) hstay' hrun
    refine ⟨hslot.trans hsame, hinv', fun p => ?_⟩
    rw [hmet', hmet]
    simp [Bool.or_assoc, List.mem_cons, Bool.decide_or, beq_eq_decide]

theorem run_marks_isSome (g : DependencyGraph) (now : ℕ → Now) (paths : List String) :
    ∃ g', run step g (paths.map (.markDataReady now)) = some g' := by
  induction paths generalizing g with
  | nil => exact ⟨g, rfl⟩
  | cons path paths ih => exact ih (g.markDataReady now path)

/-- A lost task can be left pending with every input marked. -/
theorem Lost.exists_marks (hinv : g.GraphInv) (h : Lost g.isDataReady (g.slot t)) (now : ℕ → Now) :
    ∃ (paths : List String) (g' : DependencyGraph),
      run step g (paths.map (.markDataReady now)) = some g' ∧ g'.slot t = g.slot t ∧
      ∀ p ∈ (g.slot t).inputs, g'.isDataReady p = true := by
  obtain ⟨-, hc | ⟨p, hp, hunmet, hnot⟩⟩ := h
  · obtain ⟨g', hrun⟩ := run_marks_isSome g now (g.slot t).inputs
    obtain ⟨hslot, -, hmet⟩ := slot_run_marks hinv now t _ (.inl hc) hrun
    exact ⟨_, g', hrun, hslot, fun p hp => by simp [hmet, hp]⟩
  · -- every other input first, the unindexed one last
    let others := (g.slot t).inputs.filter (· ≠ p)
    obtain ⟨g₁, hrun₁⟩ := run_marks_isSome g now others
    obtain ⟨hslot₁, hinv₁, hmet₁⟩ :=
      slot_run_marks hinv now t others (.inr ⟨p, hp, hunmet, by simp [others]⟩) hrun₁
    refine ⟨others ++ [p], g₁.markDataReady now p, ?_, ?_, ?_⟩
    · rw [List.map_append, run_append_of_run hrun₁]
      rfl
    · have hidx : t ∉ g₁.indexed p := by
        rw [← slot_indexed, hslot₁]
        exact hnot
      rw [slot_markDataReady, if_neg hidx, hslot₁]
    · intro q hq
      rw [isDataReady_markDataReady]
      by_cases hqp : q = p
      · simp [hqp]
      · simp [hmet₁, others, hq, hqp]

/-- An unsafe call on a graph whose tasks are watched loses a task. -/
theorem exists_lost_of_not_safe (hinv : g.GraphInv)
    (hw : ∀ t, Watched g.isDataReady (g.slot t)) (hstep : op.step g = some g')
    (hbroken : ¬op.Safe g) : ∃ t, Lost g'.isDataReady (g'.slot t) := by
  cases op with
  | addTask now id inputs reqs =>
    simp only [GraphOp.Safe, Classical.not_imp] at hbroken
    obtain ⟨hc, hall⟩ := hbroken
    refine ⟨id, ?_⟩
    rw [hinv.keys.slot_step hstep, act, if_pos rfl]
    exact ⟨by simp [add, hall], .inl (slot_completed.mpr hc)⟩
  | markDataRemoved path =>
    simp only [GraphOp.Safe, not_forall] at hbroken
    obtain ⟨t, hin, hbad⟩ := hbroken
    refine ⟨t, ?_⟩
    rw [hinv.keys.slot_step hstep, isDataReady_step hstep, act]
    rw [← inputs_slot] at hin
    by_cases hp : (g.slot t).pending = true
    · -- a pending task that is not indexed under the path
      have hfresh := (hw t).fresh hp
      have hc : t ∉ g.completedTasks := by
        rw [← slot_completed, hfresh]
        exact Bool.false_ne_true
      have hnot : path ∉ (g.slot t).indexed := fun hidx => hbad ⟨hc, fun _ => hidx⟩
      have hr := (hinv.slots t).not_ready_of_pending hp
      rw [if_neg (by simp [hr])]
      exact ⟨hp, .inr ⟨path, hin, by simp [met], hnot⟩⟩
    · -- a ready task whose id was removed before
      have hc : t ∈ g.completedTasks := by
        by_contra hc
        exact hbad ⟨hc, fun hpend => absurd (slot_pending.mpr hpend) hp⟩
      have hsome : (g.slot t).deps ≠ none := by
        intro hnone
        rw [inputs, hnone] at hin
        exact List.not_mem_nil hin
      obtain ⟨inputs, hdeps⟩ := ne_none_iff_exists'.mp hsome
      have hr := (hinv.slots t).ready_of_not_pending hdeps (by simpa using hp)
      rw [if_pos ⟨hr, hin⟩]
      exact ⟨rfl, .inl (slot_completed.mpr hc)⟩
  | _ => exact absurd trivial hbroken

/-! ### Readiness -/

/-- The calls succeed, and afterwards every live task is in exactly one of `ready_tasks_` and
`pending_tasks_`, in the former iff all its inputs are marked. -/
def Readiness (ops : List GraphOp) : Prop :=
  ∃ g, run step {} ops = some g ∧ ∀ t inputs, Live ops t inputs →
    Xor (t ∈ g.getReadyTasks) (t ∈ g.getPendingTasks) ∧
      (t ∈ g.getReadyTasks ↔ ∀ p ∈ inputs, g.isDataReady p = true)

/-- Calls that add every id at most once never trip the assertion of `add_task`. -/
theorem exists_run_of_nodup_adds (ops : List GraphOp)
    (hadds : (ops.filterMap adds).Nodup) : ∃ g, run step {} ops = some g := by
  induction ops using List.reverseRecOn with
  | nil => exact ⟨{}, rfl⟩
  | append_singleton ops op ih =>
    rw [List.filterMap_append, List.nodup_append] at hadds
    obtain ⟨hnodup, -, hdisj⟩ := hadds
    obtain ⟨g, hrun⟩ := ih hnodup
    have hstep : (op.step g).isSome := by
      refine (op.step_isSome g).mpr fun t ht => ?_
      cases hdeps : (g.slot t).deps with
      | none => rfl
      | some inputs =>
        have hlive := (deps_eq_some_iff_live hrun t inputs).mp hdeps
        obtain ⟨pre, now, reqs, post, rfl, -⟩ := hlive
        exact absurd rfl (hdisj t (by simp [adds]) t (by simp [ht]))
    obtain ⟨g', hg'⟩ := isSome_iff_exists.mp hstep
    exact ⟨g', run_concat.mpr ⟨_, hrun, hg'⟩⟩

theorem readiness_of_watched
    (hrun : run step {} ops = some g) (hw : ∀ t, Watched g.isDataReady (g.slot t)) :
    Readiness ops := by
  refine ⟨g, hrun, fun t inputs hlive => ?_⟩
  have hinv := (graphInv_run hrun).slots t
  have hdeps := (deps_eq_some_iff_live hrun t inputs).mpr hlive
  have hinputs : (g.slot t).inputs = inputs := by rw [Slot.inputs, hdeps, getD_some]
  show Xor _ (t ∈ g.pendingTasks) ∧ _
  rw [← slot_ready, ← slot_pending, ← hinputs]
  cases hp : (g.slot t).pending with
  | false =>
    have hr := hinv.ready_of_not_pending hdeps hp
    exact ⟨.inl ⟨hr, Bool.false_ne_true⟩, fun _ => hinv.ready_met hr, fun _ => hr⟩
  | true =>
    have hr := hinv.not_ready_of_pending hp
    obtain ⟨d, hd, hunmet⟩ := (hw t).unmet hp
    refine ⟨.inr ⟨rfl, by simp [hr]⟩, fun h => hinv.ready_met h, fun hall => ?_⟩
    have := hall d hd
    rw [hunmet] at this
    cases this

/-- After a lost task the marks of `Lost.exists_marks` break readiness. -/
theorem not_readiness_of_lost
    (hrun : run step {} ops = some g) (hlost : Lost g.isDataReady (g.slot t))
    (now : ℕ → Now) :
    ∃ paths : List String, ¬Readiness (ops ++ paths.map (.markDataReady now)) := by
  have hinv := graphInv_run hrun
  obtain ⟨paths, g', hrun', hslot, hmet⟩ := hlost.exists_marks hinv now
  refine ⟨paths, ?_⟩
  rintro ⟨g'', hrun'', hready⟩
  have htotal : run step {} (ops ++ paths.map (.markDataReady now)) = some g' := by
    rw [run_append_of_run hrun, hrun']
  obtain rfl : g' = g'' := Option.some.inj (htotal.symm.trans hrun'')
  have hsome : (g'.slot t).deps.isSome = true := by
    rw [hslot, (hinv.slots t).held, hlost.1, Bool.or_true]
  obtain ⟨inputs, hdeps⟩ := isSome_iff_exists.mp hsome
  have hlive := (deps_eq_some_iff_live htotal t inputs).mp hdeps
  have hinputs : (g.slot t).inputs = inputs := by rw [← hslot, Slot.inputs, hdeps, getD_some]
  have hr : t ∈ g'.getReadyTasks := (hready t inputs hlive).2.mpr (hinputs ▸ hmet)
  have hp : (g'.slot t).pending = true := by rw [hslot, hlost.1]
  have hnot := ((graphInv_run htotal).slots t).not_ready_of_pending hp
  rw [slot_ready.mpr hr] at hnot
  cases hnot

theorem watched_of_safe (hrun : run step {} ops = some g)
    (hsafe : ∀ pre op post, ops = pre ++ op :: post → ∀ g, run step {} pre = some g →
      g.GraphInv → (∀ t, Watched g.isDataReady (g.slot t)) → op.Safe g) :
    ∀ t, Watched g.isDataReady (g.slot t) := by
  refine run_history (I := fun _ g => ∀ t, Watched g.isDataReady (g.slot t))
    (fun t => Watched.of_not_pending rfl) ?_ hrun
  intro hist op rest g g' hsplit hreached hw hstep
  have hinv := graphInv_run hreached
  exact Watched.step hinv hw hstep (hsafe hist op rest hsplit g hreached hinv hw)

/-- **No wake-up is lost exactly if every call was safe.**  For every sequence of calls that adds no id
twice: readiness holds after each of its prefixes, and still after any further marks, iff each call is
safe in the graph it is made on. -/
theorem readiness_iff_safe (ops : List GraphOp) (hadds : (ops.filterMap adds).Nodup) :
    (∀ pre, pre <+: ops → ∀ (now : ℕ → Now) (paths : List String),
        Readiness (pre ++ paths.map (.markDataReady now))) ↔ SafeAlong ops := by
  constructor
  · intro hready pre op post hsplit
    -- the first unsafe call would lose a task
    have hsafe : ∀ pre op post, ops = pre ++ op :: post → ∀ g, run step {} pre = some g →
        g.GraphInv → (∀ t, Watched g.isDataReady (g.slot t)) → op.Safe g := by
      intro pre op post hsplit g hrun hinv hw
      by_contra hbroken
      have hpre : pre ++ [op] <+: ops := ⟨post, by rw [hsplit]; simp⟩
      obtain ⟨g', hrun', -⟩ := hready _ hpre (fun _ => ⟨0, 0⟩) []
      rw [List.map_nil, List.append_nil] at hrun'
      obtain ⟨u, hu, hstep⟩ := run_concat.mp hrun'
      obtain rfl := Option.some.inj (hrun.symm.trans hu)
      obtain ⟨t, hlost⟩ := exists_lost_of_not_safe hinv hw hstep hbroken
      obtain ⟨paths, hnot⟩ := not_readiness_of_lost hrun' hlost (fun _ => ⟨0, 0⟩)
      exact hnot (hready _ hpre _ paths)
    intro g hrun
    refine hsafe pre op post hsplit g hrun (graphInv_run hrun) ?_
    refine watched_of_safe hrun fun pre' op' post' hsplit' => ?_
    exact hsafe pre' op' (post' ++ op :: post) (by rw [hsplit, hsplit']; simp)
  · rintro hsafe pre ⟨post, rfl⟩ now paths
    rw [List.filterMap_append] at hadds
    obtain ⟨g, hrun⟩ := exists_run_of_nodup_adds pre hadds.of_append_left
    have hw : ∀ t, Watched g.isDataReady (g.slot t) := by
      refine watched_of_safe hrun fun pre' op' post' hsplit' g' hrun' _ _ => ?_
      exact hsafe pre' op' (post' ++ post) (by rw [hsplit']; simp) g' hrun'
    obtain ⟨g', hrun'⟩ := run_marks_isSome g now paths
    have hmarks : g'.GraphInv ∧ ∀ t, Watched g'.isDataReady (g'.slot t) := by
      refine run_invariant (I := fun g => g.GraphInv ∧ ∀ t, Watched g.isDataReady (g.slot t)) ?_
        ⟨graphInv_run hrun, hw⟩ hrun'
      rintro op hop g₁ g₂ ⟨hinv₁, hw₁⟩ hstep
      obtain ⟨path, -, rfl⟩ := List.mem_map.mp hop
      exact ⟨hinv₁.step hstep, Watched.step hinv₁ hw₁ hstep trivial⟩
    refine readiness_of_watched ?_ hmarks.2
    rw [run_append_of_run hrun, hrun']

/-- The clock readings play no part below. -/
def noClock : ℕ → Now := fun _ => ⟨0, 0⟩

/-- A task runs and is removed, its input is removed, and another task waits until it is back. -/
def inputRestored : List GraphOp :=
  [.addTask noClock 1 ["a"] {}, .markDataReady noClock "a", .removeTask 1, .markDataRemoved "a",
    .addTask noClock 2 ["a", "b"] {}, .markDataReady noClock "b", .markDataReady noClock "a"]

theorem readiness_iff_safe_inputRestored :
    (∀ pre, pre <+: inputRestored → ∀ (now : ℕ → Now) (paths : List String),
        Readiness (pre ++ paths.map (.markDataReady now))) ↔ SafeAlong inputRestored :=
  readiness_iff_safe inputRestored (by decide)

/-- The shortest lost wake-up: task 1 starts to wait for `b` while `a` is marked, and is therefore not
indexed under `a`; unmarking `a` does not index it, so the last mark of `a` does not find it. -/
def flippedInput : List GraphOp :=
  [.markDataReady noClock "a", .addTask noClock 1 ["a", "b"] {}, .markDataRemoved "a",
    .markDataReady noClock "b", .markDataReady noClock "a"]

theorem not_readiness_flippedInput :
    (flippedInput.filterMap adds).Nodup ∧ ¬Readiness flippedInput := by
  refine ⟨by decide, ?_⟩
  rintro ⟨g, hrun, hready⟩
  have hlive : Live flippedInput 1 ["a", "b"] :=
    ⟨[.markDataReady noClock "a"], noClock, {}, _, rfl, by simp⟩
  have hstuck : (run step {} flippedInput).map (fun g =>
      (g.getReadyTasks, g.getPendingTasks, g.isDataReady "a", g.isDataReady "b")) =
      some ([], [1], true, true) := by decide
  rw [hrun, map_some, Option.some.injEq, Prod.mk.injEq, Prod.mk.injEq, Prod.mk.injEq] at hstuck
  obtain ⟨hr, -, ha, hb⟩ := hstuck
  have hmem := (hready 1 _ hlive).2.mpr (by simp [ha, hb])
  rw [hr] at hmem
  cases hmem

end Fly.Task
