import Mathlib.Algebra.BigOperators.Group.Finset.Piecewise
import Mathlib.Algebra.Order.BigOperators.Group.Finset
import Mathlib.Data.List.Basic

/-!
# Serial lanes

A lane is a queue with one worker: the worker takes the oldest task, performs it, and only then takes the
next.  Several lanes work side by side; which lane a task goes to is decided by the task.

* `Pool` — the lanes, with the tasks in the order in which they were submitted and the log of what the
  workers have begun and ended; `submit`, `start`, `finish`, and `runNow` for a caller that does the task
  itself;
* `marks` — the log of one worker: each task ends before the next begins;
* `Serial` — the log of every lane is the log of a worker that takes the submitted tasks in order;
  `serial_submit`, `serial_start`, `serial_finish`, `serial_runNow` — every operation keeps it;
* `Serial.sift` — **the tasks of one kind, if they all go to one lane, are performed one after another in
  the order of submission**;
* `pending` — what is left to do; `pending_start`, `pending_finish`.
-/

namespace Fly.Lib

open List Function Finset

variable {τ κ : Type*}

/-- A queue and the task its worker is at. -/
structure Lane (τ : Type*) where
  tasks : List τ
  current : Option τ
  deriving DecidableEq

/-- The marks that the lane has yet to make: a task in the queue has to begin and to end. -/
def Lane.weight (lane : Lane τ) : ℕ := 2 * lane.tasks.length + lane.current.toList.length

/-- What a worker leaves in the log. -/
inductive Mark (τ : Type*) where
  | began (t : τ)
  | ended (t : τ)
  deriving DecidableEq

namespace Mark

def task : Mark τ → τ
  | began t => t
  | ended t => t

/-- The mark of a task that is of the kind asked for. -/
def sift (g : τ → Option κ) : Mark τ → Option (Mark κ)
  | began t => (g t).map began
  | ended t => (g t).map ended

end Mark

/-- The log of a worker that has performed `done` and is at `current`. -/
def marks (done : List τ) (current : Option τ) : List (Mark τ) :=
  done.flatMap (fun t => [Mark.began t, .ended t]) ++ (current.map .began).toList

theorem filterMap_sift_marks (g : τ → Option κ) (done : List τ) (current : Option τ) :
    (marks done current).filterMap (Mark.sift g) = marks (done.filterMap g) (current.bind g) := by
  induction done with
  | nil =>
    cases current with
    | none => rfl
    | some t =>
      show [Mark.began t].filterMap (Mark.sift g) = ((g t).map Mark.began).toList
      cases hg : g t <;> simp [Mark.sift, hg]
  | cons t done ih =>
    show (Mark.began t :: Mark.ended t :: marks done current).filterMap (Mark.sift g) = _
    cases hg : g t with
    | none => simp [Mark.sift, hg, ih]
    | some k =>
      rw [filterMap_cons_some (b := Mark.began k) (by simp [Mark.sift, hg]),
        filterMap_cons_some (b := Mark.ended k) (by simp [Mark.sift, hg]), ih,
        filterMap_cons_some hg]
      rfl

structure Pool (τ : Type*) where
  lanes : ℕ → Lane τ
  submitted : List τ
  log : List (Mark τ)

namespace Pool

variable (laneOf : τ → ℕ) (P : Pool τ)

def init : Pool τ where
  lanes _ := ⟨[], none⟩
  submitted := []
  log := []

def setLane (i : ℕ) (lane : Lane τ) : ℕ → Lane τ := update P.lanes i lane

/-- Put a task at the end of the queue of its lane. -/
def submit (t : τ) : Pool τ :=
  { P with
    lanes := P.setLane (laneOf t) ⟨(P.lanes (laneOf t)).tasks ++ [t], (P.lanes (laneOf t)).current⟩
    submitted := P.submitted ++ [t] }

/-- The caller performs the task at once. -/
def runNow (t : τ) : Pool τ :=
  { P with submitted := P.submitted ++ [t], log := P.log ++ [.began t, .ended t] }

/-- The worker takes the oldest task of its queue. -/
def start (i : ℕ) : Option (Pool τ) :=
  match P.lanes i with
  | ⟨t :: rest, none⟩ =>
    some { P with lanes := P.setLane i ⟨rest, some t⟩, log := P.log ++ [.began t] }
  | _ => none

def finish (i : ℕ) : Option (Pool τ) :=
  match P.lanes i with
  | ⟨tasks, some t⟩ =>
    some { P with lanes := P.setLane i ⟨tasks, none⟩, log := P.log ++ [.ended t] }
  | _ => none

def Empty (i : ℕ) : Prop := P.lanes i = ⟨[], none⟩

variable {laneOf P} {P' : Pool τ} {i : ℕ} {t : τ}

theorem start_cases (h : P.start i = some P') : ∃ t rest, P.lanes i = ⟨t :: rest, none⟩ ∧
      P' = { P with lanes := P.setLane i ⟨rest, some t⟩, log := P.log ++ [.began t] } := by
  unfold start at h
  split at h
  · rename_i t rest hlane
    exact ⟨t, rest, hlane, (Option.some.inj h).symm⟩
  · cases h

theorem finish_cases (h : P.finish i = some P') : ∃ t tasks, P.lanes i = ⟨tasks, some t⟩ ∧
      P' = { P with lanes := P.setLane i ⟨tasks, none⟩, log := P.log ++ [.ended t] } := by
  unfold finish at h
  split at h
  · rename_i t tasks hlane
    exact ⟨tasks, t, hlane, (Option.some.inj h).symm⟩
  · cases h

/-- A lane that is not empty has a worker that can go on. -/
theorem start_or_finish (h : ¬P.Empty i) : (∃ P', P.start i = some P') ∨ ∃ P', P.finish i = some P' := by
  unfold start finish
  rcases hlane : P.lanes i with ⟨tasks, current⟩
  cases current with
  | some t => exact .inr ⟨_, rfl⟩
  | none =>
    cases tasks with
    | nil => exact absurd hlane h
    | cons t rest => exact .inl ⟨_, rfl⟩

/-! ### One after another, in the order of submission -/

variable (laneOf P) in
/-- Every lane performs the tasks that are submitted to it in order, one at a time. -/
def Serial : Prop :=
  ∀ i, ∃ done, P.submitted.filter (fun t => laneOf t == i) =
      done ++ ((P.lanes i).current.toList ++ (P.lanes i).tasks) ∧
    P.log.filter (fun m => laneOf m.task == i) = marks done (P.lanes i).current

theorem serial_init : (init : Pool τ).Serial laneOf := fun _ => ⟨[], rfl, rfl⟩

section

variable (h : P.Serial laneOf)

include h

/-- **One lane goes on**: tasks are submitted to it, it makes marks, and both fit what it has done. -/
theorem Serial.of_lane {lane : Lane τ} {ts : List τ} {ms : List (Mark τ)}
    (hlanes : P'.lanes = P.setLane i lane)
    (hsubmitted : P'.submitted = P.submitted ++ ts) (hmarks : P'.log = P.log ++ ms)
    (hts : ∀ t ∈ ts, laneOf t = i) (hms : ∀ m ∈ ms, laneOf m.task = i)
    (hown : ∀ done, ∃ done', done ++ ((P.lanes i).current.toList ++ (P.lanes i).tasks) ++ ts =
        done' ++ (lane.current.toList ++ lane.tasks) ∧
      marks done (P.lanes i).current ++ ms = marks done' lane.current) : P'.Serial laneOf := by
  intro j
  obtain ⟨done, hsub, hlog⟩ := h j
  rw [hsubmitted, hmarks, filter_append, filter_append, hsub, hlog, hlanes, setLane]
  by_cases hj : j = i
  · subst hj
    rw [update_self, List.filter_eq_self.mpr (by simpa using hts),
      List.filter_eq_self.mpr (by simpa using hms)]
    exact hown done
  · have hnot : ∀ x, x = i → ¬(x == j) = true := by
      rintro x rfl hx
      exact hj (beq_iff_eq.mp hx).symm
    rw [update_of_ne hj, filter_eq_nil_iff.mpr fun t ht => hnot _ (hts t ht),
      filter_eq_nil_iff.mpr fun m hm => hnot _ (hms m hm)]
    exact ⟨done, append_nil _, append_nil _⟩

theorem serial_submit (t : τ) : (P.submit laneOf t).Serial laneOf := by
  refine h.of_lane rfl rfl (append_nil _).symm (forall_mem_singleton.mpr rfl) (forall_mem_nil _)
    fun done => ?_
  exact ⟨done, by simp, append_nil _⟩

theorem serial_runNow (hempty : P.Empty (laneOf t)) : (P.runNow t).Serial laneOf := by
  have hlanes : P.lanes = P.setLane (laneOf t) ⟨[], none⟩ := by rw [setLane, ← hempty, update_eq_self]
  refine h.of_lane hlanes rfl rfl (forall_mem_singleton.mpr rfl) (by simp [Mark.task]) fun done => ?_
  rw [hempty]
  exact ⟨done ++ [t], by simp, by simp [marks]⟩

/-- The tasks of a lane go to that lane. -/
theorem laneOf_of_mem (ht : t ∈ (P.lanes i).current.toList ++ (P.lanes i).tasks) : laneOf t = i := by
  obtain ⟨done, hsub, -⟩ := h i
  have hmem : t ∈ P.submitted.filter (fun t => laneOf t == i) := by
    rw [hsub]
    exact mem_append_right _ ht
  simpa using (mem_filter.mp hmem).2

theorem serial_start (hstart : P.start i = some P') : P'.Serial laneOf := by
  obtain ⟨t, rest, hlane, rfl⟩ := start_cases hstart
  have hti : laneOf t = i := laneOf_of_mem h (by rw [hlane]; simp)
  refine h.of_lane rfl (append_nil _).symm rfl (forall_mem_nil _) (forall_mem_singleton.mpr hti)
    fun done => ?_
  rw [hlane]
  exact ⟨done, by simp, by simp [marks]⟩

theorem serial_finish (hfinish : P.finish i = some P') : P'.Serial laneOf := by
  obtain ⟨t, tasks, hlane, rfl⟩ := finish_cases hfinish
  have hti : laneOf t = i := laneOf_of_mem h (by rw [hlane]; simp)
  refine h.of_lane rfl (append_nil _).symm rfl (forall_mem_nil _) (forall_mem_singleton.mpr hti)
    fun done => ?_
  rw [hlane]
  exact ⟨done ++ [t], by simp, by simp [marks]⟩

/-- **One kind of tasks on one lane.**  What is performed of them is a log of one worker, and it follows the
order in which they were submitted. -/
theorem Serial.sift {g : τ → Option κ} (hg : ∀ t, (g t).isSome → laneOf t = i) :
    ∃ done, P.submitted.filterMap g =
        done ++ (((P.lanes i).current.bind g).toList ++ (P.lanes i).tasks.filterMap g) ∧
      P.log.filterMap (Mark.sift g) = marks done ((P.lanes i).current.bind g) := by
  obtain ⟨done, hsub, hlog⟩ := h i
  have honly : ∀ t, (if laneOf t == i then g t else none) = g t := by
    intro t
    by_cases ht : laneOf t = i
    · simp [ht]
    · cases hgt : g t with
      | none => simp
      | some k => exact absurd (hg t (by rw [hgt]; rfl)) ht
  refine ⟨done.filterMap g, ?_, ?_⟩
  · have hsift := congrArg (List.filterMap g) hsub
    rw [filterMap_filter] at hsift
    simp only [honly, filterMap_append] at hsift
    rw [hsift]
    cases (P.lanes i).current with
    | none => rfl
    | some t => cases hgt : g t <;> simp [hgt]
  · have hsift := congrArg (List.filterMap (Mark.sift g)) hlog
    rw [filterMap_filter, filterMap_sift_marks] at hsift
    rw [← hsift]
    refine filterMap_congr fun m _ => ?_
    cases m with
    | began t =>
      show (g t).map Mark.began = if laneOf t == i then (g t).map Mark.began else none
      rw [← honly t]
      by_cases ht : laneOf t = i <;> simp [ht]
    | ended t =>
      show (g t).map Mark.ended = if laneOf t == i then (g t).map Mark.ended else none
      rw [← honly t]
      by_cases ht : laneOf t = i <;> simp [ht]

end

/-! ### What is left to do -/

variable (P) in
/-- The marks that the first `N` lanes have yet to make. -/
def pending (N : ℕ) : ℕ := ∑ i ∈ range N, (P.lanes i).weight

theorem pending_lt_of_setLane {N : ℕ} {lane : Lane τ} (hi : i < N) (hlt : lane.weight < (P.lanes i).weight)
    (hP : P'.lanes = P.setLane i lane) : P'.pending N < P.pending N := by
  unfold pending
  rw [hP]
  refine sum_lt_sum (fun j _ => ?_) ⟨i, Finset.mem_range.mpr hi, ?_⟩
  · by_cases hj : j = i
    · subst hj
      rw [setLane, update_self]
      exact le_of_lt hlt
    · rw [setLane, update_of_ne hj]
  · rw [setLane, update_self]
    exact hlt

theorem pending_start {N : ℕ} (hi : i < N) (h : P.start i = some P') : P'.pending N < P.pending N := by
  obtain ⟨t, rest, hlane, rfl⟩ := start_cases h
  refine pending_lt_of_setLane hi ?_ rfl
  rw [hlane]
  simp [Lane.weight]
  omega

theorem pending_finish {N : ℕ} (hi : i < N) (h : P.finish i = some P') : P'.pending N < P.pending N := by
  obtain ⟨t, tasks, hlane, rfl⟩ := finish_cases h
  refine pending_lt_of_setLane hi ?_ rfl
  rw [hlane]
  simp [Lane.weight]

theorem pending_submit (N : ℕ) (t : τ) : (P.submit laneOf t).pending N ≤ P.pending N + 2 := by
  have hterm : ∀ j ∈ Finset.range N, ((P.submit laneOf t).lanes j).weight ≤
      (P.lanes j).weight + if j = laneOf t then 2 else 0 := by
    intro j _
    by_cases hj : j = laneOf t
    · subst hj
      simp [submit, setLane, Lane.weight]
      omega
    · simp [submit, setLane, hj]
  calc ∑ j ∈ range N, ((P.submit laneOf t).lanes j).weight
      ≤ ∑ j ∈ range N, ((P.lanes j).weight + if j = laneOf t then 2 else 0) :=
        Finset.sum_le_sum hterm
    _ = ∑ j ∈ range N, (P.lanes j).weight + ∑ j ∈ range N, (if j = laneOf t then 2 else 0) :=
        sum_add_distrib
    _ ≤ ∑ j ∈ range N, (P.lanes j).weight + 2 := by
        rw [sum_ite_eq']
        split <;> omega

end Pool

end Fly.Lib
