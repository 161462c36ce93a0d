import Fly.Task.Readiness

/-!
# Re-queueing a task

`handle_worker_death` and `restart_failed_tasks` put a task back with `remove_task` followed by
`add_task`.  The comparison is with a graph that carries the same marks and never saw the id:

* `DependencyGraph.view` — everything the query methods say about one task;
* `GraphOp.task` — the task a call names; `NeverSeen` — no call so far named it;
* `requeue_fresh_iff` — **the two graphs answer alike, whatever calls follow, exactly if the task has
  no inputs.**

`remove_task` leaves the id in `completed_tasks_`.  That only matters when the task has to be woken, and
a task with an input can always be brought to wait for it.
-/

namespace Fly.Task

open Fly.Lib List DependencyGraph GraphOp Slot

/-- The answers of the query methods about one task. -/
structure TaskView where
  isReady : Bool
  ready : Bool
  pending : Bool
  deps : List String
  requirements : TaskRequirements
  readyAt : Option ℤ
  readyEpochMs : ℤ
  deriving DecidableEq

namespace DependencyGraph

def view (g : DependencyGraph) (t : ℕ) : TaskView where
  isReady := g.isTaskReady t
  ready := decide (t ∈ g.getReadyTasks)
  pending := decide (t ∈ g.getPendingTasks)
  deps := g.getTaskDependencies t
  requirements := g.getTaskRequirements t
  readyAt := g.getTaskReadyTimestamp t
  readyEpochMs := g.getTaskReadyEpochMs t

/-- The answers do not depend on `completed_tasks_`, nor on the reverse index. -/
theorem view_congr {g g₀ : DependencyGraph} (hinv : g.GraphInv) (hinv₀ : g₀.GraphInv) {t : ℕ}
    (h : { g.slot t with completed := false } = { g₀.slot t with completed := false }) :
    g.view t = g₀.view t := by
  simp only [Slot.mk.injEq] at h
  obtain ⟨hdeps, hreqs, hready, hpending, -, hat, hepoch, -⟩ := h
  unfold view
  rw [hinv.keys.isTaskReady_eq, hinv₀.keys.isTaskReady_eq, hready]
  have hd : g.getTaskDependencies t = g₀.getTaskDependencies t := congrArg (·.getD []) hdeps
  have hq : g.getTaskRequirements t = g₀.getTaskRequirements t := congrArg (·.getD {}) hreqs
  have he : g.getTaskReadyEpochMs t = g₀.getTaskReadyEpochMs t := congrArg (·.getD 0) hepoch
  have ha : g.getTaskReadyTimestamp t = g₀.getTaskReadyTimestamp t := hat
  have hr : decide (t ∈ g.getReadyTasks) = decide (t ∈ g₀.getReadyTasks) := hready
  have hp : decide (t ∈ g.getPendingTasks) = decide (t ∈ g₀.getPendingTasks) := hpending
  rw [hd, hq, he, ha, hr, hp]

end DependencyGraph

/-- The task a call names. -/
def GraphOp.task : GraphOp → Option ℕ
  | .addTask _ id _ _ => some id
  | .setTaskLocalityHint id _ => some id
  | .removeTask id => some id
  | _ => none

def NeverSeen (ops : List GraphOp) (t : ℕ) : Prop := ∀ op ∈ ops, op.task ≠ some t

theorem slot_empty (t : ℕ) : ({} : DependencyGraph).slot t = {} :=
  Slot.ext rfl rfl rfl rfl rfl rfl rfl (Set.eq_empty_of_forall_notMem fun _ => SortedSet.notMem_empty t)

variable {g g' g₀ g₁ : DependencyGraph} {ops : List GraphOp} {t : ℕ} {s s₀ : Slot} {u : String}

/-- A task no call named has an empty slot. -/
theorem NeverSeen.slot_eq (h : NeverSeen ops t) (hrun : run step {} ops = some g) : g.slot t = {} := by
  have hinv : g.GraphInv ∧ g.slot t = {} := by
    refine run_invariant (I := fun g => g.GraphInv ∧ g.slot t = {}) ?_ ⟨graphInv_empty, slot_empty t⟩ hrun
    rintro op hop g g' ⟨hinv, hslot⟩ hstep
    refine ⟨hinv.step hstep, ?_⟩
    have htask := h op hop
    rw [hinv.keys.slot_step hstep, hslot]
    cases op with
    | markDataReady now path => exact if_neg (Set.notMem_empty path)
    | markDataRemoved path =>
      simp only [act]
      refine if_neg ?_
      rintro ⟨hready, -⟩
      cases hready
    | _ => exact if_neg fun heq => htask (by rw [heq]; rfl)
  exact hinv.2

/-- The marks after a run are those of its data events. -/
theorem isDataReady_run (hrun : run step g ops = some g') :
    g'.isDataReady = ops.foldl (fun met op => op.met met) g.isDataReady := by
  induction ops generalizing g with
  | nil =>
    cases hrun
    rfl
  | cons op ops ih =>
    obtain ⟨u, hu, hrun⟩ := Option.bind_eq_some_iff.mp hrun
    rw [ih hrun, foldl_cons, isDataReady_step hu]

/-- Some graph carries the same marks and has seen no task at all. -/
theorem exists_unseen (hrun : run step {} ops = some g) (t : ℕ) :
    ∃ ops₀ g₀, run step {} ops₀ = some g₀ ∧ NeverSeen ops₀ t ∧ g₀.isDataReady = g.isDataReady := by
  let data := ops.filter fun op => op.task.isNone
  have hmarks : ∀ met : String → Bool,
      data.foldl (fun met op => op.met met) met = ops.foldl (fun met op => op.met met) met := by
    intro met
    show (ops.filter _).foldl _ met = _
    rw [foldl_filter]
    congr 1
    funext met op
    cases op <;> rfl
  have hnone : ∀ op ∈ data, op.task = none := by
    intro op hop
    simpa [data] using (mem_filter.mp hop).2
  have hadds : data.filterMap adds = [] := by
    rw [filterMap_eq_nil_iff]
    intro op hop
    have := hnone op hop
    cases op <;> first | rfl | cases this
  obtain ⟨g₀, hrun₀⟩ := exists_run_of_nodup_adds data (by rw [hadds]; exact nodup_nil)
  refine ⟨data, g₀, hrun₀, fun op hop => ?_, ?_⟩
  · rw [hnone op hop]
    exact (Option.some_ne_none t).symm
  · rw [isDataReady_run hrun₀, isDataReady_run hrun, hmarks]

/-! ### Tasks without inputs -/

/-- Slots that differ in the completed flag only, of a ready task without inputs.  Nothing can bring
such a task back to waiting, so the flag is never consulted. -/
def SettledTwins (s s₀ : Slot) : Prop :=
  s.deps = some [] ∧ s.ready = true ∧ s.indexed = ∅ ∧ s₀ = { s with completed := false }

/-- Two slots that answer alike from now on. -/
def Twins (s s₀ : Slot) : Prop := s = s₀ ∨ SettledTwins s s₀

theorem Twins.forget (h : Twins s s₀) :
    { s with completed := false } = { s₀ with completed := false } := by
  rcases h with rfl | ⟨-, -, -, rfl⟩ <;> rfl

theorem SettledTwins.act (h : SettledTwins s s₀) (op : GraphOp) (t : ℕ)
    (met : String → Bool) (hadd : op.adds ≠ some t) :
    Twins (op.act t met s) (op.act t met s₀) := by
  have htwins := h
  obtain ⟨hdeps, hready, hindexed, rfl⟩ := h
  cases op with
  | addTask now id inputs reqs =>
    have ht : t ≠ id := fun ht => hadd (by rw [ht]; rfl)
    simp only [act, if_neg ht]
    exact .inr htwins
  | markDataReady now path =>
    have hnot : path ∉ s.indexed := by
      rw [hindexed]
      exact Set.notMem_empty path
    simp only [act, if_neg hnot]
    exact .inr htwins
  | markDataRemoved path =>
    have hnot : path ∉ s.inputs := by
      rw [inputs, hdeps]
      exact not_mem_nil
    have hs : act t met s (.markDataRemoved path) = s := if_neg fun h => hnot h.2
    have hs₀ : act t met { s with completed := false } (.markDataRemoved path) =
        { s with completed := false } := if_neg fun h => hnot h.2
    rw [hs, hs₀]
    exact .inr htwins
  | setTaskLocalityHint id hint =>
    simp only [act]
    split
    · exact .inr ⟨hdeps, hready, hindexed, rfl⟩
    · exact .inr htwins
  | removeTask id =>
    simp only [act]
    split
    · exact .inl rfl
    · exact .inr htwins

/-- Twins in two graphs with the same marks stay twins over every common sequence of calls. -/
theorem twins_run {g₀' : DependencyGraph} (hinv : g.GraphInv) (hinv₀ : g₀.GraphInv)
    (hmet : g.isDataReady = g₀.isDataReady) (h : Twins (g.slot t) (g₀.slot t))
    {later : List GraphOp} (hrun : run step g later = some g')
    (hrun₀ : run step g₀ later = some g₀') : g'.view t = g₀'.view t := by
  have hrel := run_related (R := fun g g₀ => g.GraphInv ∧ g₀.GraphInv ∧
    g.isDataReady = g₀.isDataReady ∧ Twins (g.slot t) (g₀.slot t)) ?_
    ⟨hinv, hinv₀, hmet, h⟩ hrun hrun₀
  · obtain ⟨hinv', hinv₀', -, h'⟩ := hrel
    exact view_congr hinv' hinv₀' h'.forget
  · rintro g g₀ op g' g₀' ⟨hinv, hinv₀, hmet, h⟩ hstep hstep₀
    refine ⟨hinv.step hstep, hinv₀.step hstep₀, ?_, ?_⟩
    · rw [isDataReady_step hstep, isDataReady_step hstep₀, hmet]
    · rw [hinv.keys.slot_step hstep, hinv₀.keys.slot_step hstep₀, ← hmet]
      rcases h with heq | h
      · rw [heq]
        exact .inl rfl
      refine h.act op t g.isDataReady fun hadds => ?_
      have hnone := deps_of_step hstep t hadds
      rw [h.1] at hnone
      cases hnone

/-! ### Tasks with inputs -/

/-- A fresh pending task is woken by marking its other inputs first and an indexed one last. -/
theorem exists_marks_wake (hinv : g.GraphInv)
    (hfresh : (g.slot t).completed = false) (hp : (g.slot t).pending = true)
    (hu : u ∈ (g.slot t).inputs) (hunmet : g.isDataReady u = false) (hidx : u ∈ (g.slot t).indexed)
    (now : ℕ → Now) (g' : DependencyGraph)
    (hrun : run step g
      ((((g.slot t).inputs.filter (· ≠ u)) ++ [u]).map (.markDataReady now)) = some g') :
    t ∉ g'.getPendingTasks := by
  obtain ⟨g₁, hrun₁⟩ := run_marks_isSome g now ((g.slot t).inputs.filter (· ≠ u))
  obtain ⟨hslot₁, hinv₁, hmet₁⟩ :=
    slot_run_marks hinv now t _ (.inr ⟨u, hu, hunmet, by simp⟩) hrun₁
  rw [map_append, run_append_of_run hrun₁] at hrun
  obtain rfl : g₁.markDataReady now u = g' := Option.some.inj hrun
  have hidx₁ : t ∈ g₁.indexed u := by
    rw [← slot_indexed, hslot₁]
    exact hidx
  have hall : (g.slot t).inputs.all (fun p => g₁.isDataReady p || p == u) = true := by
    rw [all_eq_true]
    intro p hp
    by_cases hpu : p = u
    · simp [hpu]
    · simp [hmet₁, hp, hpu]
  have hr := (hinv.slots t).not_ready_of_pending hp
  show t ∉ (g₁.markDataReady now u).pendingTasks
  rw [← slot_pending, slot_markDataReady, if_pos hidx₁, hslot₁, wake, if_pos ⟨hfresh, hr, hp, hall⟩]
  exact Bool.false_ne_true

theorem exists_added (hinv : g.GraphInv) (t : ℕ)
    (hdeps : (g.slot t).deps = none) (inputs : List String) (reqs : TaskRequirements)
    (now : ℕ → Now) :
    ∃ g₁, run step g [.addTask now t inputs reqs] = some g₁ ∧ g₁.GraphInv ∧ g₁.isDataReady = g.isDataReady ∧
      g₁.slot t = (g.slot t).add g.isDataReady (now t) inputs reqs := by
  have hsome : (step g (.addTask now t inputs reqs)).isSome := by
    refine (step_isSome _ g).mpr fun t' ht' => ?_
    obtain rfl : t = t' := Option.some.inj ht'
    exact hdeps
  obtain ⟨g₁, hadd⟩ := Option.isSome_iff_exists.mp hsome
  refine ⟨g₁, by rw [run_cons_of_step hadd, run_nil], hinv.step hadd, isDataReady_step hadd, ?_⟩
  rw [hinv.keys.slot_step hadd, act, if_pos rfl]

/-- Removing and adding a task always succeeds, and this is its slot afterwards. -/
theorem exists_requeued (hinv : g.GraphInv) (t : ℕ) (inputs : List String)
    (reqs : TaskRequirements) (now : ℕ → Now) :
    ∃ g₁, run step g [.removeTask t, .addTask now t inputs reqs] = some g₁ ∧
      g₁.GraphInv ∧ g₁.isDataReady = g.isDataReady ∧
      g₁.slot t = (g.slot t).remove.add g.isDataReady (now t) inputs reqs := by
  have hremove : step g (.removeTask t) = some (g.removeTask t) := rfl
  have hslot : (g.removeTask t).slot t = (g.slot t).remove := by
    rw [hinv.keys.slot_removeTask, if_pos rfl]
  obtain ⟨g₁, hadd, hinv₁, hmet₁, hslot₁⟩ :=
    exists_added (hinv.step hremove) t (by rw [hslot]; rfl) inputs reqs now
  rw [hslot] at hslot₁
  exact ⟨g₁, by rw [run_cons_of_step hremove, hadd], hinv₁, hmet₁, hslot₁⟩

/-- A pending twin that completed once is stuck where the fresh one is woken. -/
theorem exists_view_ne (hinv₁ : g₁.GraphInv) (hinv₀ : g₀.GraphInv) (hslot₁ : g₁.slot t = s)
    (hslot₀ : g₀.slot t = s₀) (hc : s.completed = true) (hp : s.pending = true)
    (hfresh : s₀.completed = false) (hp₀ : s₀.pending = true) (hu : u ∈ s₀.inputs)
    (hunmet : g₀.isDataReady u = false) (hidx : u ∈ s₀.indexed) :
    ∃ later g₁' g₀', run step g₁ later = some g₁' ∧ run step g₀ later = some g₀' ∧
      g₁'.view t ≠ g₀'.view t := by
  subst hslot₁ hslot₀
  let paths := (g₀.slot t).inputs.filter (· ≠ u) ++ [u]
  obtain ⟨g₁', hrun₁⟩ := run_marks_isSome g₁ noClock paths
  obtain ⟨g₀', hrun₀⟩ := run_marks_isSome g₀ noClock paths
  refine ⟨_, g₁', g₀', hrun₁, hrun₀, fun hview => ?_⟩
  obtain ⟨hslot, -, -⟩ := slot_run_marks hinv₁ noClock t paths (.inl hc) hrun₁
  have hin : t ∈ g₁'.getPendingTasks := by
    show t ∈ g₁'.pendingTasks
    rw [← slot_pending, hslot, hp]
  have hout := exists_marks_wake hinv₀ hfresh hp₀ hu hunmet hidx noClock g₀' hrun₀
  have hpending := congrArg TaskView.pending hview
  simp [view, hin, hout] at hpending

/-- After the same `add_task` on an id that completed once and on a fresh one: some continuation tells
them apart, because the task has an input to wait for. -/
theorem exists_view_ne_of_inputs {g₂ : DependencyGraph} (hinv₁ : g₁.GraphInv)
    (hinv₂ : g₂.GraphInv) {met : String → Bool} (hmet : g₂.isDataReady = met)
    {inputs : List String} (hne : inputs ≠ []) {reqs : TaskRequirements} {now : Now} {s₁ s₂ : Slot}
    (hslot₁ : g₁.slot t = s₁.add met now inputs reqs)
    (hslot₂ : g₂.slot t = s₂.add met now inputs reqs)
    (hc₁ : s₁.completed = true) (hc₂ : s₂.completed = false) :
    ∃ later g₁' g₂', run step g₁ later = some g₁' ∧ run step g₂ later = some g₂' ∧
      g₁'.view t ≠ g₂'.view t := by
  cases hall : inputs.all met with
  | false =>
    -- the task waits at once
    obtain ⟨u, hu, hunmet⟩ := all_eq_false.mp hall
    rw [Bool.not_eq_true] at hunmet
    exact exists_view_ne hinv₁ hinv₂ hslot₁ hslot₂ hc₁ (by simp [add, hall]) hc₂ (by simp [add, hall]) hu
      (by rw [hmet, hunmet]) (.inr ⟨hu, hunmet⟩)
  | true =>
    -- one of its inputs is removed first, which demotes both
    obtain ⟨p, hp⟩ := exists_mem_of_ne_nil inputs hne
    have hstep₁ : step g₁ (.markDataRemoved p) = some (g₁.markDataRemoved p) := rfl
    have hstep₂ : step g₂ (.markDataRemoved p) = some (g₂.markDataRemoved p) := rfl
    have hready₁ : (g₁.slot t).ready = true ∧ p ∈ (g₁.slot t).inputs := by
      rw [hslot₁]
      exact ⟨by simp [add, hall], hp⟩
    have hready₂ : (g₂.slot t).ready = true ∧ p ∈ (g₂.slot t).inputs := by
      rw [hslot₂]
      exact ⟨by simp [add, hall], hp⟩
    have hdem₁ := hinv₁.keys.slot_markDataRemoved p t
    have hdem₂ := hinv₂.keys.slot_markDataRemoved p t
    rw [if_pos hready₁] at hdem₁
    rw [if_pos hready₂] at hdem₂
    obtain ⟨later, g₁', g₂', hl₁, hl₂, hview⟩ :
        ∃ later g₁' g₂', run step (g₁.markDataRemoved p) later = some g₁' ∧
          run step (g₂.markDataRemoved p) later = some g₂' ∧
          g₁'.view t ≠ g₂'.view t := by
      rw [hslot₁] at hdem₁
      rw [hslot₂] at hdem₂
      refine exists_view_ne (hinv₁.step hstep₁) (hinv₂.step hstep₂) hdem₁ hdem₂ hc₁ rfl hc₂ rfl hp ?_
        (.inr ⟨hp, by simp⟩)
      rw [isDataReady_markDataRemoved]
      simp
    refine ⟨.markDataRemoved p :: later, g₁', g₂', ?_, ?_, hview⟩
    · rw [run_cons_of_step hstep₁, hl₁]
    · rw [run_cons_of_step hstep₂, hl₂]

/-- **A re-queued task is a fresh task exactly if it has no inputs.**  `g` is any reachable graph; on
the left the task is removed and added, on the right only added to a graph that carries the same marks
and never saw the id, and whatever calls follow, the queries about the task agree. -/
theorem requeue_fresh_iff (ops : List GraphOp) (g : DependencyGraph)
    (hrun : run step {} ops = some g) (t : ℕ) (inputs : List String)
    (reqs : TaskRequirements) (now : ℕ → Now) :
    (∀ ops₀ g₀, run step {} ops₀ = some g₀ → NeverSeen ops₀ t →
      g₀.isDataReady = g.isDataReady → ∀ later g' g₀',
        run step g (.removeTask t :: .addTask now t inputs reqs :: later) = some g' →
        run step g₀ (.addTask now t inputs reqs :: later) = some g₀' →
        g'.view t = g₀'.view t) ↔ inputs = [] := by
  have hinv := graphInv_run hrun
  obtain ⟨g₁, hrun₁, hinv₁, hmet₁, hslot₁⟩ := exists_requeued hinv t inputs reqs now
  have hsplit : ∀ later, run step g (.removeTask t :: .addTask now t inputs reqs :: later) =
      run step g₁ later := run_append_of_run hrun₁
  constructor
  · intro hsame
    by_contra hne
    obtain ⟨ops₀, g₀, hrun₀, hnever, hmet₀⟩ := exists_unseen hrun t
    have hslot₀ := hnever.slot_eq hrun₀
    obtain ⟨g₂, hrun₂, hinv₂, hmet₂, hslot₂⟩ := exists_added
      (graphInv_run hrun₀) t (by rw [hslot₀]) inputs reqs now
    rw [hslot₀, hmet₀] at hslot₂
    rw [hmet₀] at hmet₂
    obtain ⟨later, g₁', g₂', hl₁, hl₂, hview⟩ := exists_view_ne_of_inputs hinv₁ hinv₂ hmet₂ hne
      hslot₁ hslot₂ rfl rfl
    refine hview (hsame ops₀ g₀ hrun₀ hnever hmet₀ later g₁' g₂' ?_ ?_)
    · rw [hsplit, hl₁]
    · exact (run_append_of_run hrun₂ later).trans hl₂
  · rintro rfl ops₀ g₀ hrun₀ hnever hmet₀ later g' g₀' hrun' hrun₀'
    have hslot₀ := hnever.slot_eq hrun₀
    obtain ⟨g₂, hrun₂, hinv₂, hmet₂, hslot₂⟩ := exists_added
      (graphInv_run hrun₀) t (by rw [hslot₀]) [] reqs now
    rw [hsplit] at hrun'
    have hrun₀'' : run step g₂ later = some g₀' :=
      (run_append_of_run hrun₂ later).symm.trans hrun₀'
    refine twins_run hinv₁ hinv₂ (by rw [hmet₁, hmet₂, hmet₀]) (.inr ?_) hrun' hrun₀''
    have hidx : (g.slot t).remove.indexed = ∅ := (hinv.slots t).remove.indexed_eq_empty rfl
    rw [hslot₁, hslot₂, hslot₀, hmet₀]
    refine ⟨rfl, by simp [Slot.add], by simp [Slot.add, hidx], ?_⟩
    refine Slot.ext rfl rfl rfl rfl rfl rfl rfl ?_
    show ∅ ∪ _ = (g.slot t).remove.indexed ∪ _
    rw [hidx]

/-- Task 7 is given to a worker, and its input is removed. -/
def inputGone : List GraphOp :=
  [.markDataReady noClock "in", .addTask noClock 7 ["in"] {}, .removeTask 7, .markDataRemoved "in"]

theorem requeue_fresh_iff_inputGone : ∃ g, run step {} inputGone = some g ∧
    ¬∀ ops₀ g₀, run step {} ops₀ = some g₀ → NeverSeen ops₀ 7 → g₀.isDataReady = g.isDataReady →
      ∀ later g' g₀', run step g (.removeTask 7 :: .addTask noClock 7 ["in"] {} :: later) = some g' →
        run step g₀ (.addTask noClock 7 ["in"] {} :: later) = some g₀' → g'.view 7 = g₀'.view 7 := by
  refine ⟨_, rfl, fun hfresh => ?_⟩
  cases (requeue_fresh_iff inputGone _ rfl 7 ["in"] {} noClock).mp hfresh

/-- A worker dies while it runs task 7 and the input of the task is gone: re-queued, the task is still
pending after its input is back, where a task added for the first time is ready. -/
theorem requeue_not_fresh_seven : ∃ g g₀ g' g₀' : DependencyGraph,
      run step {} [.markDataReady noClock "in", .addTask noClock 7 ["in"] {},
        .removeTask 7, .markDataRemoved "in"] = some g ∧
      run step {} [] = some g₀ ∧ NeverSeen [] 7 ∧ g₀.isDataReady = g.isDataReady ∧
      run step g [.removeTask 7, .addTask noClock 7 ["in"] {},
        .markDataReady noClock "in"] = some g' ∧
      run step g₀ [.addTask noClock 7 ["in"] {}, .markDataReady noClock "in"] = some g₀' ∧
      (g'.view 7).pending = true ∧ (g'.view 7).ready = false ∧
      (g₀'.view 7).pending = false ∧ (g₀'.view 7).ready = true := by
  refine ⟨_, _, _, _, rfl, rfl, fun op hop => (nomatch hop), ?_, rfl, rfl, ?_⟩
  · rfl
  · decide

end Fly.Task
