import Fly.Task.DependencyGraph

/-!
# The dependency graph seen by one task

`DependencyGraph` keeps nine containers that mention a task.  Seen from one task they collapse to a
`Slot`: what the containers say about that id, plus the set of paths it is indexed under.  The graph is
the family of its slots over one shared table of ready paths, and a call acts on every slot by itself:

* `Slot.add`, `Slot.wake`, `Slot.demote`, `Slot.remove` — the automaton one task goes through;
* `KeysCurrent` — a key of `ready_tasks_` carries the priority its task has now;
* `KeysCurrent.slot_step` — **the refinement**: on a graph with current keys a call is the automaton of
  every task performed at once, `GraphOp.act`, over the shared marks `GraphOp.met`.

The loops of `mark_data_ready` and `mark_data_removed` disappear here: the first wakes exactly the
tasks indexed under the path, the second demotes exactly the ready tasks that depend on it.
-/

namespace Fly.Task

open Fly.Lib List Option Table SortedSet DependencyGraph

/-- Everything the containers of the graph say about one task. -/
@[ext] structure Slot where
  deps : Option (List String) := none
  reqs : Option TaskRequirements := none
  ready : Bool := false
  pending : Bool := false
  completed : Bool := false
  readyAt : Option ℤ := none
  readyEpoch : Option ℤ := none
  indexed : Set String := ∅

namespace Slot

/-- The dependencies, none for a task the graph does not hold. -/
def inputs (s : Slot) : List String := s.deps.getD []

def add (met : String → Bool) (now : Now) (inputs : List String) (reqs : TaskRequirements)
    (s : Slot) : Slot :=
  { s with
    deps := some inputs
    reqs := some reqs
    ready := s.ready || inputs.all met
    pending := s.pending || !inputs.all met
    readyAt := if inputs.all met then some now.steady else s.readyAt
    readyEpoch := if inputs.all met then some now.epochMs else s.readyEpoch
    indexed := s.indexed ∪ { d | d ∈ inputs ∧ met d = false } }

def wake (met : String → Bool) (now : Now) (s : Slot) : Slot :=
  if s.completed = false ∧ s.ready = false ∧ s.pending = true ∧ s.inputs.all met then
    { s with
      ready := true
      pending := false
      readyAt := some now.steady
      readyEpoch := some now.epochMs
      indexed := s.indexed \ { d | d ∈ s.inputs } }
  else s

def demote (met : String → Bool) (s : Slot) : Slot :=
  { s with
    ready := false
    pending := true
    readyAt := none
    indexed := s.indexed ∪ { d | d ∈ s.inputs ∧ met d = false } }

def hint (h : List (ℕ × ℤ)) (s : Slot) : Slot :=
  { s with reqs := s.reqs.map fun r => { r with localityHint := h } }

def remove (s : Slot) : Slot :=
  { completed := true
    readyEpoch := s.readyEpoch
    indexed := s.indexed \ { d | d ∈ s.inputs } }

end Slot

/-! ### The slot of a task in a graph -/

namespace DependencyGraph

variable (g : DependencyGraph)

def slot (t : ℕ) : Slot where
  deps := g.taskDependencies.lookup t
  reqs := g.taskRequirements.lookup t
  ready := decide (t ∈ g.getReadyTasks)
  pending := decide (t ∈ g.pendingTasks)
  completed := decide (t ∈ g.completedTasks)
  readyAt := g.taskReadyTimestamps.lookup t
  readyEpoch := g.taskReadyEpochMs.lookup t
  indexed := { d | t ∈ g.indexed d }

variable {g} {t id : ℕ} {g' : DependencyGraph} {deps : List String} {d : String}

theorem mem_getReadyTasks : t ∈ g.getReadyTasks ↔ ∃ k ∈ g.readyTasks, k.task = t := by
  simp only [getReadyTasks, List.mem_map]
  rfl

theorem inputs_slot (t : ℕ) : (g.slot t).inputs = g.getTaskDependencies t := rfl

/-- Every key of `ready_tasks_` carries the priority its task has now, so that erasing the rebuilt key
erases the task. -/
def KeysCurrent (g : DependencyGraph) : Prop :=
  ∀ k ∈ g.readyTasks, k = readyKey (g.priorityOf k.task) k.task

theorem KeysCurrent.key_mem_iff (h : g.KeysCurrent) :
    readyKey (g.priorityOf t) t ∈ g.readyTasks ↔ t ∈ g.getReadyTasks := by
  rw [mem_getReadyTasks]
  constructor
  · intro hk
    exact ⟨_, hk, rfl⟩
  · rintro ⟨k, hk, rfl⟩
    rw [← h k hk]
    exact hk

/-- On a graph with current keys the query `is_task_ready` is membership in `ready_tasks_`. -/
theorem KeysCurrent.isTaskReady_eq (h : g.KeysCurrent) (t : ℕ) : g.isTaskReady t = (g.slot t).ready := by
  simp only [isTaskReady, slot, h.key_mem_iff]

/-! ### The reverse index -/

theorem mem_indexInsert (idx : Table String (SortedSet ℕ)) (id t : ℕ) (dep d : String) :
    t ∈ ((indexInsert idx id dep).lookup d).getD ∅ ↔ t ∈ (idx.lookup d).getD ∅ ∨ (t = id ∧ d = dep) := by
  rw [indexInsert, lookup_upsert]
  by_cases hd : d = dep
  · subst hd
    rw [if_pos rfl, getD_some, mem_insert]
    tauto
  · rw [if_neg hd]
    tauto

theorem mem_foldl_indexInsert (id t : ℕ) (d : String) (deps : List String)
    (idx : Table String (SortedSet ℕ)) :
    t ∈ ((deps.foldl (fun idx dep => indexInsert idx id dep) idx).lookup d).getD ∅ ↔
      t ∈ (idx.lookup d).getD ∅ ∨ (t = id ∧ d ∈ deps) := by
  induction deps generalizing idx with
  | nil => simp
  | cons dep deps ih =>
    rw [foldl_cons, ih, mem_indexInsert, mem_cons]
    tauto

theorem mem_indexErase (idx : Table String (SortedSet ℕ)) (id t : ℕ) (dep d : String) :
    t ∈ ((indexErase idx id dep).lookup d).getD ∅ ↔ t ∈ (idx.lookup d).getD ∅ ∧ ¬(t = id ∧ d = dep) := by
  unfold indexErase
  cases hl : idx.lookup dep with
  | none =>
    -- the path has no entry at all
    by_cases hd : d = dep
    · subst hd
      simp [hl]
    · simp [hd]
  | some s =>
    by_cases hd : d = dep
    · subst hd
      have hmem : t ∈ s.erase id ↔ t ∈ s ∧ ¬t = id := by
        rw [mem_erase]
        tauto
      by_cases hempty : (s.erase id).toList = []
      · have hnot : t ∉ s.erase id := by
          rw [← SortedSet.mem_toList, hempty]
          exact not_mem_nil
        simp only [hempty, if_true, lookup_erase_eq, hl, getD_none, getD_some]
        rw [hmem] at hnot
        simpa using hnot
      · simp only [hempty, if_false, lookup_insert_eq, if_true, hl, getD_some]
        tauto
    · by_cases hempty : (s.erase id).toList = []
      all_goals simp [hempty, hd]

theorem mem_foldl_indexErase (id t : ℕ) (d : String) (deps : List String)
    (idx : Table String (SortedSet ℕ)) :
    t ∈ ((deps.foldl (fun idx dep => indexErase idx id dep) idx).lookup d).getD ∅ ↔
      t ∈ (idx.lookup d).getD ∅ ∧ ¬(t = id ∧ d ∈ deps) := by
  induction deps generalizing idx with
  | nil => simp
  | cons dep deps ih =>
    rw [foldl_cons, ih, mem_indexErase, mem_cons]
    tauto

theorem mem_unmet :
    d ∈ g.unmet deps ↔ d ∈ deps ∧ g.isDataReady d = false := by
  simp [unmet]

theorem unmet_length_eq_zero :
    (g.unmet deps).length = 0 ↔ deps.all g.isDataReady = true := by
  rw [List.length_eq_zero_iff, List.eq_nil_iff_forall_not_mem, List.all_eq_true]
  constructor
  · intro h d hd
    have hnot := h d
    rw [mem_unmet] at hnot
    simpa [hd] using hnot
  · intro h d hd
    rw [mem_unmet] at hd
    have := h d hd.1
    rw [hd.2] at this
    cases this

/-! ### Membership in `ready_tasks_` after an update -/

theorem mem_getReadyTasks_insert {p : ℤ}
    (hg : g'.readyTasks = g.readyTasks.insert (readyKey p id)) (t : ℕ) :
    t ∈ g'.getReadyTasks ↔ t = id ∨ t ∈ g.getReadyTasks := by
  simp only [mem_getReadyTasks, hg, mem_insert]
  constructor
  · rintro ⟨k, rfl | hk, rfl⟩
    · exact .inl (readyKey_task p id)
    · exact .inr ⟨k, hk, rfl⟩
  · rintro (rfl | ⟨k, hk, rfl⟩)
    · exact ⟨_, .inl rfl, readyKey_task p t⟩
    · exact ⟨k, .inr hk, rfl⟩

theorem KeysCurrent.mem_getReadyTasks_erase (h : g.KeysCurrent)
    (hg : g'.readyTasks = g.readyTasks.erase (readyKey (g.priorityOf id) id)) (t : ℕ) :
    t ∈ g'.getReadyTasks ↔ t ≠ id ∧ t ∈ g.getReadyTasks := by
  simp only [mem_getReadyTasks, hg, mem_erase]
  constructor
  · rintro ⟨k, ⟨hne, hk⟩, rfl⟩
    refine ⟨?_, k, hk, rfl⟩
    intro htask
    apply hne
    rw [h k hk, htask]
  · rintro ⟨hne, k, hk, rfl⟩
    refine ⟨k, ⟨?_, hk⟩, rfl⟩
    intro hkey
    apply hne
    rw [hkey, readyKey_task]

/-! ### What one call does to one slot -/

theorem slot_ready : (g.slot t).ready = true ↔ t ∈ g.getReadyTasks := by simp [slot]

theorem slot_pending : (g.slot t).pending = true ↔ t ∈ g.pendingTasks := by simp [slot]

theorem slot_completed : (g.slot t).completed = true ↔ t ∈ g.completedTasks := by
  simp [slot]

theorem slot_indexed : d ∈ (g.slot t).indexed ↔ t ∈ g.indexed d := Iff.rfl

/-! The shared updates first. -/

theorem slot_index (id : ℕ) (deps : List String) (t : ℕ) : (g.index id deps).slot t =
      if t = id then { g.slot t with indexed := (g.slot t).indexed ∪ { d | d ∈ deps } }
      else g.slot t := by
  have hidx : ∀ d, t ∈ (g.index id deps).indexed d ↔ t ∈ g.indexed d ∨ (t = id ∧ d ∈ deps) :=
    fun d => mem_foldl_indexInsert id t d deps g.dataToPendingTasks
  show { g.slot t with indexed := { d | t ∈ (g.index id deps).indexed d } } = _
  simp only [hidx]
  by_cases ht : t = id
  · simp [ht, slot, Set.ofPred_or]
  · simp [ht, slot]

theorem slot_unindex (id : ℕ) (deps : List String) (t : ℕ) : (g.unindex id deps).slot t =
      if t = id then { g.slot t with indexed := (g.slot t).indexed \ { d | d ∈ deps } }
      else g.slot t := by
  have hidx : ∀ d, t ∈ (g.unindex id deps).indexed d ↔ t ∈ g.indexed d ∧ ¬(t = id ∧ d ∈ deps) :=
    fun d => mem_foldl_indexErase id t d deps g.dataToPendingTasks
  show { g.slot t with indexed := { d | t ∈ (g.unindex id deps).indexed d } } = _
  simp only [hidx]
  by_cases ht : t = id
  · simp [ht, slot, Set.sdiff_eq, Set.ofPred_and, Set.compl_ofPred]
  · simp [ht, slot]

theorem slot_park (id t : ℕ) :
    (g.park id).slot t = if t = id then { g.slot t with pending := true } else g.slot t := by
  have hmem : t ∈ (g.park id).pendingTasks ↔ t = id ∨ t ∈ g.pendingTasks := mem_insert
  show { g.slot t with pending := decide (t ∈ (g.park id).pendingTasks) } = _
  by_cases ht : t = id
  · subst ht
    simp [hmem]
  · simp [hmem, ht, slot]

theorem slot_unpark (id t : ℕ) :
    (g.unpark id).slot t = if t = id then { g.slot t with pending := false } else g.slot t := by
  have hmem : t ∈ (g.unpark id).pendingTasks ↔ t ≠ id ∧ t ∈ g.pendingTasks := mem_erase
  show { g.slot t with pending := decide (t ∈ (g.unpark id).pendingTasks) } = _
  by_cases ht : t = id
  · subst ht
    simp [hmem]
  · simp [hmem, ht, slot]

variable (now : ℕ → Now) {inputs : List String} {reqs : TaskRequirements}

theorem slot_stampReady (p : ℤ) (id t : ℕ) : (g.stampReady now p id).slot t =
      if t = id then
        { g.slot t with
          ready := true
          readyAt := some (now t).steady
          readyEpoch := some (now t).epochMs }
      else g.slot t := by
  have hmem : t ∈ (g.stampReady now p id).getReadyTasks ↔ t = id ∨ t ∈ g.getReadyTasks :=
    mem_getReadyTasks_insert rfl t
  show { g.slot t with
    ready := decide (t ∈ (g.stampReady now p id).getReadyTasks)
    readyAt := (g.taskReadyTimestamps.insert id (now id).steady).lookup t
    readyEpoch := (g.taskReadyEpochMs.insert id (now id).epochMs).lookup t } = _
  by_cases ht : t = id
  · subst ht
    simp [hmem]
  · simp [hmem, ht, slot]

theorem KeysCurrent.slot_unready (h : g.KeysCurrent) (id t : ℕ) : (g.unready id).slot t =
      if t = id then { g.slot t with ready := false, readyAt := none } else g.slot t := by
  have hmem : t ∈ (g.unready id).getReadyTasks ↔ t ≠ id ∧ t ∈ g.getReadyTasks :=
    h.mem_getReadyTasks_erase rfl t
  show { g.slot t with
    ready := decide (t ∈ (g.unready id).getReadyTasks)
    readyAt := (g.taskReadyTimestamps.erase id).lookup t } = _
  by_cases ht : t = id
  · subst ht
    simp [hmem]
  · simp [hmem, ht, slot]

/-! Then the operations. -/

/-- What `add_task` can do, once its assertion holds. -/
theorem addTask_cases {now : ℕ → Now} (h : g.addTask now id inputs reqs = some g') :
    (inputs.all g.isDataReady = true ∧ g' = (g.enter id inputs reqs).stampReady now reqs.priority id) ∨
    (inputs.all g.isDataReady = false ∧ g' = (g.enter id inputs reqs).park id) := by
  simp only [addTask, unmet_length_eq_zero] at h
  split at h
  · cases h
  · split at h
    case isTrue hall => exact .inl ⟨hall, (Option.some.inj h).symm⟩
    case isFalse hall => exact .inr ⟨by simpa using hall, (Option.some.inj h).symm⟩

theorem slot_enter (id : ℕ) (inputs : List String) (reqs : TaskRequirements) (t : ℕ) :
    (g.enter id inputs reqs).slot t =
      if t = id then
        { g.slot t with
          deps := some inputs
          reqs := some reqs
          indexed := (g.slot t).indexed ∪ { d | d ∈ inputs ∧ g.isDataReady d = false } }
      else g.slot t := by
  have hunmet : { d | d ∈ g.unmet inputs } = { d | d ∈ inputs ∧ g.isDataReady d = false } :=
    Set.ext fun d => mem_unmet
  have hentries : slot
      { g with
        taskDependencies := g.taskDependencies.insert id inputs
        taskRequirements := g.taskRequirements.insert id reqs } t =
      if t = id then { g.slot t with deps := some inputs, reqs := some reqs } else g.slot t := by
    show { g.slot t with
      deps := (g.taskDependencies.insert id inputs).lookup t
      reqs := (g.taskRequirements.insert id reqs).lookup t } = _
    by_cases ht : t = id
    · subst ht
      simp
    · simp [ht, slot]
  rw [enter, slot_index, hunmet, hentries]
  by_cases ht : t = id
  · simp [ht]
  · simp [ht]

theorem slot_addTask {now : ℕ → Now} (h : g.addTask now id inputs reqs = some g') (t : ℕ) :
    g'.slot t =
      if t = id then (g.slot t).add g.isDataReady (now t) inputs reqs else g.slot t := by
  rcases addTask_cases h with ⟨hall, rfl⟩ | ⟨hall, rfl⟩
  · rw [slot_stampReady, slot_enter]
    by_cases ht : t = id
    · simp [ht, Slot.add, hall]
    · simp [ht]
  · rw [slot_park, slot_enter]
    by_cases ht : t = id
    · simp [ht, Slot.add, hall]
    · simp [ht]

theorem slot_setTaskLocalityHint (id : ℕ) (hint : List (ℕ × ℤ)) (t : ℕ) :
    (g.setTaskLocalityHint id hint).slot t =
      if t = id then (g.slot t).hint hint else g.slot t := by
  show { g.slot t with
    reqs := (Table.modify g.taskRequirements id fun r => { r with localityHint := hint }).lookup t } = _
  rw [lookup_modify]
  by_cases ht : t = id
  · subst ht
    simp [Slot.hint, slot]
  · simp [ht, slot]

/-- The four guards of `check_and_move_to_ready` are the guard of `Slot.wake`. -/
theorem checkAndMoveToReady_eq (id : ℕ) : g.checkAndMoveToReady now id =
      if (g.slot id).completed = false ∧ (g.slot id).ready = false ∧ (g.slot id).pending = true ∧
          (g.slot id).inputs.all g.isDataReady then
        some (((g.unpark id).stampReady now (g.priorityOf id) id).unindex id (g.getTaskDependencies id))
      else none := by
  unfold checkAndMoveToReady
  rw [inputs_slot]
  by_cases hc : id ∈ g.completedTasks
  · simp [hc, slot]
  by_cases hr : id ∈ g.getReadyTasks
  · simp [hr, slot]
  by_cases hp : id ∈ g.pendingTasks
  · simp only [hc, hr, hp, if_false, not_true, slot, decide_true, decide_false, true_and]
    rw [← not_all_eq_any_not]
    cases (g.getTaskDependencies id).all g.isDataReady <;> simp
  · simp [hp, slot]

theorem slot_checkAndMoveToReady (id t : ℕ) :
    ((g.checkAndMoveToReady now id).getD g).slot t =
      if t = id then (g.slot t).wake g.isDataReady (now t) else g.slot t := by
  rw [checkAndMoveToReady_eq]
  by_cases ht : t = id
  · subst ht
    rw [if_pos rfl, Slot.wake]
    split
    case isTrue hg =>
      rw [getD_some, slot_unindex, slot_stampReady, slot_unpark]
      simp [inputs_slot]
    case isFalse hg => rfl
  · split
    case isTrue hg =>
      rw [getD_some, slot_unindex, slot_stampReady, slot_unpark]
      simp [ht]
    case isFalse hg => rfl

theorem isDataReady_checkAndMoveToReady (id : ℕ) :
    ((g.checkAndMoveToReady now id).getD g).isDataReady = g.isDataReady := by
  rw [checkAndMoveToReady_eq]
  split <;> rfl

theorem isDataReady_wakeAll (affected : List ℕ) :
    (wakeAll now g affected).isDataReady = g.isDataReady := by
  induction affected generalizing g with
  | nil => rfl
  | cons id affected ih =>
    show (wakeAll now ((g.checkAndMoveToReady now id).getD g) affected).isDataReady = _
    rw [ih, isDataReady_checkAndMoveToReady]

/-- The loop visits every affected task once, so each of their slots is woken once. -/
theorem slot_wakeAll (affected : List ℕ) (hnodup : affected.Nodup) (t : ℕ) :
    (wakeAll now g affected).slot t =
      if t ∈ affected then (g.slot t).wake g.isDataReady (now t) else g.slot t := by
  induction affected generalizing g with
  | nil => rfl
  | cons id affected ih =>
    rw [nodup_cons] at hnodup
    show (wakeAll now ((g.checkAndMoveToReady now id).getD g) affected).slot t = _
    rw [ih hnodup.2, slot_checkAndMoveToReady, isDataReady_checkAndMoveToReady]
    by_cases ht : t = id
    · subst ht
      simp [hnodup.1]
    · simp [ht]

theorem isDataReady_insert (path : String) :
    ({ g with dataReadyStatus := g.dataReadyStatus.insert path true } :
      DependencyGraph).isDataReady = fun p => g.isDataReady p || p == path := by
  funext p
  simp only [isDataReady, lookup_insert_eq]
  by_cases hp : p = path <;> simp [hp]

theorem isDataReady_erase (path : String) : ({ g with dataReadyStatus := g.dataReadyStatus.erase path } :
      DependencyGraph).isDataReady = fun p => g.isDataReady p && p != path := by
  funext p
  simp only [isDataReady, lookup_erase_eq]
  by_cases hp : p = path <;> simp [hp]

theorem isDataReady_markDataReady (path : String) :
    (g.markDataReady now path).isDataReady = fun p => g.isDataReady p || p == path := by
  rw [markDataReady, isDataReady_wakeAll, isDataReady_insert]

/-- `mark_data_ready` wakes exactly the tasks indexed under the path. -/
theorem slot_markDataReady (path : String) (t : ℕ) : (g.markDataReady now path).slot t =
      if t ∈ g.indexed path then
        (g.slot t).wake (fun p => g.isDataReady p || p == path) (now t)
      else g.slot t := by
  rw [markDataReady, slot_wakeAll now _ (SortedSet.nodup _), isDataReady_insert]
  rfl

theorem isDataReady_foldl_demote (l : List ℕ) : (l.foldl demote g).isDataReady = g.isDataReady := by
  induction l generalizing g with
  | nil => rfl
  | cons id l ih =>
    rw [foldl_cons, ih]
    rfl

theorem isDataReady_markDataRemoved (path : String) :
    (g.markDataRemoved path).isDataReady = fun p => g.isDataReady p && p != path := by
  rw [markDataRemoved, isDataReady_foldl_demote, isDataReady_erase]

section

variable (h : g.KeysCurrent)
include h

theorem KeysCurrent.slot_demote (id t : ℕ) : (g.demote id).slot t =
      if t = id then (g.slot t).demote g.isDataReady else g.slot t := by
  have hunmet : { d | d ∈ g.unmet (g.getTaskDependencies id) } =
      { d | d ∈ (g.slot id).inputs ∧ g.isDataReady d = false } := Set.ext fun d => mem_unmet
  rw [demote, slot_index, slot_park, h.slot_unready, hunmet]
  by_cases ht : t = id
  · subst ht
    simp [Slot.demote]
  · simp [ht]

theorem KeysCurrent.unready (id : ℕ) : (g.unready id).KeysCurrent := by
  intro k hk
  exact h k (mem_erase.mp hk).2

/-- The keys depend on the ready set and the priorities only. -/
theorem KeysCurrent.of_eq (hready : g'.readyTasks = g.readyTasks)
    (hprio : ∀ t ∈ g.getReadyTasks, g'.priorityOf t = g.priorityOf t) : g'.KeysCurrent := by
  intro k hk
  rw [hready] at hk
  rw [hprio k.task (mem_getReadyTasks.mpr ⟨k, hk, rfl⟩)]
  exact h k hk

theorem KeysCurrent.demote (id : ℕ) : (g.demote id).KeysCurrent :=
  (h.unready id).of_eq rfl fun _ _ => rfl

theorem KeysCurrent.nodup_getReadyTasks : g.getReadyTasks.Nodup := by
  refine List.Nodup.map_on ?_ g.readyTasks.nodup
  intro k hk k' hk' htask
  rw [h k hk, h k' hk', htask]

/-- The second loop of `mark_data_removed` demotes each collected task once. -/
theorem KeysCurrent.slot_foldl_demote (l : List ℕ) (hnodup : l.Nodup) (t : ℕ) :
    (l.foldl DependencyGraph.demote g).slot t =
      if t ∈ l then (g.slot t).demote g.isDataReady else g.slot t := by
  induction l generalizing g with
  | nil => rfl
  | cons id l ih =>
    rw [nodup_cons] at hnodup
    have hmet : (g.demote id).isDataReady = g.isDataReady := rfl
    rw [foldl_cons, ih (h.demote id) hnodup.2, h.slot_demote, hmet]
    by_cases ht : t = id
    · subst ht
      simp [hnodup.1]
    · simp [ht]

/-- `mark_data_removed` demotes exactly the ready tasks that depend on the path. -/
theorem KeysCurrent.slot_markDataRemoved (path : String) (t : ℕ) : (g.markDataRemoved path).slot t =
      if (g.slot t).ready = true ∧ path ∈ (g.slot t).inputs then
        (g.slot t).demote (fun p => g.isDataReady p && p != path)
      else g.slot t := by
  have herase : KeysCurrent { g with dataReadyStatus := g.dataReadyStatus.erase path } :=
    h.of_eq rfl fun _ _ => rfl
  have hmem : t ∈ g.getReadyTasks.filter (fun id => path ∈ g.getTaskDependencies id) ↔
      (g.slot t).ready = true ∧ path ∈ (g.slot t).inputs := by
    simp [slot_ready, inputs_slot]
  have hnodup : (g.getReadyTasks.filter (fun id => path ∈ g.getTaskDependencies id)).Nodup :=
    h.nodup_getReadyTasks.filter _
  have hloop := herase.slot_foldl_demote _ hnodup t
  rw [isDataReady_erase] at hloop
  simp only [hmem] at hloop
  exact hloop

theorem KeysCurrent.slot_removeTask (id t : ℕ) :
    (g.removeTask id).slot t = if t = id then (g.slot t).remove else g.slot t := by
  have hlast : ∀ g₁ g₂ : DependencyGraph,
      g₂ = { g₁ with
        completedTasks := g₁.completedTasks.insert id
        taskDependencies := g₁.taskDependencies.erase id
        taskRequirements := g₁.taskRequirements.erase id } →
      g₂.slot t =
        if t = id then { g₁.slot t with completed := true, deps := none, reqs := none }
        else g₁.slot t := by
    rintro g₁ g₂ rfl
    show { g₁.slot t with
      completed := decide (t ∈ g₁.completedTasks.insert id)
      deps := (g₁.taskDependencies.erase id).lookup t
      reqs := (g₁.taskRequirements.erase id).lookup t } = _
    by_cases ht : t = id
    · subst ht
      simp
    · simp [ht, slot]
  rw [hlast _ (g.removeTask id) rfl, slot_unindex, slot_unpark, h.slot_unready]
  by_cases ht : t = id
  · subst ht
    simp [Slot.remove, inputs_slot]
  · simp [ht]

end

end DependencyGraph

/-! ### The automaton of one task and the refinement -/

/-- How a call changes the marks of the paths. -/
def GraphOp.met (met : String → Bool) : GraphOp → String → Bool
  | .markDataReady _ path => fun p => met p || p == path
  | .markDataRemoved path => fun p => met p && p != path
  | _ => met

open Classical in
/-- What a call does to the slot of task `t`, given the marks before it. -/
noncomputable def GraphOp.act (t : ℕ) (met : String → Bool) (s : Slot) : GraphOp → Slot
  | .addTask now id inputs reqs => if t = id then s.add met (now t) inputs reqs else s
  | .markDataReady now path =>
    if path ∈ s.indexed then s.wake (fun p => met p || p == path) (now t) else s
  | .markDataRemoved path =>
    if s.ready = true ∧ path ∈ s.inputs then s.demote (fun p => met p && p != path) else s
  | .setTaskLocalityHint id hint => if t = id then s.hint hint else s
  | .removeTask id => if t = id then s.remove else s

/-- The task a call adds, if it adds one. -/
def GraphOp.adds : GraphOp → Option ℕ
  | .addTask _ id _ _ => some id
  | _ => none

/-- A call fails exactly when it adds a task the graph still holds. -/
theorem GraphOp.step_isSome (op : GraphOp) (g : DependencyGraph) :
    (op.step g).isSome ↔ ∀ t, op.adds = some t → (g.slot t).deps = none := by
  cases op with
  | addTask now id inputs reqs =>
    have hmem : id ∈ g.taskDependencies ↔ ¬(g.slot id).deps = none := by
      rw [← AList.lookup_isSome, isSome_iff_ne_none]
      rfl
    simp only [step, DependencyGraph.addTask, adds, Option.some.injEq, forall_eq', hmem]
    by_cases h : (g.slot id).deps = none
    · rw [if_neg (not_not.mpr h)]
      split <;> simp [h]
    · simp [h]
  | _ => simp [step, adds]

variable {g' : DependencyGraph} {op : GraphOp}

/-- **The refinement.**  A call acts on the slot of every task by itself, and on the shared marks. -/
theorem DependencyGraph.KeysCurrent.slot_step {g : DependencyGraph} (h : g.KeysCurrent)
    (hstep : op.step g = some g') (t : ℕ) :
    g'.slot t = op.act t g.isDataReady (g.slot t) := by
  cases op with
  | addTask now id inputs reqs => exact slot_addTask hstep t
  | markDataReady now path =>
    cases hstep
    rw [slot_markDataReady, GraphOp.act]
    by_cases hin : t ∈ g.indexed path
    · rw [if_pos hin]
      exact (if_pos hin).symm
    · rw [if_neg hin]
      exact (if_neg hin).symm
  | markDataRemoved path =>
    cases hstep
    rw [h.slot_markDataRemoved, GraphOp.act]
  | setTaskLocalityHint id hint =>
    cases hstep
    exact slot_setTaskLocalityHint id hint t
  | removeTask id =>
    cases hstep
    exact h.slot_removeTask id t

theorem DependencyGraph.isDataReady_step {g : DependencyGraph}
    (hstep : op.step g = some g') : g'.isDataReady = op.met g.isDataReady := by
  cases op with
  | addTask now id inputs reqs =>
    rcases addTask_cases hstep with ⟨-, rfl⟩ | ⟨-, rfl⟩ <;> rfl
  | markDataReady now path =>
    cases hstep
    exact isDataReady_markDataReady now path
  | markDataRemoved path =>
    cases hstep
    exact isDataReady_markDataRemoved path
  | setTaskLocalityHint id hint | removeTask id =>
    cases hstep
    rfl

end Fly.Task
