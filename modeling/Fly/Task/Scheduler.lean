import Fly.Task.DependencyGraph
import Fly.Task.WorkerManager

/-!
# The task scheduler (`task/cpp/task_scheduler.{h,cpp}`)

`scheduleNext` walks the ready tasks in order and places the first one for which `selectBestWorker`
names a worker: the worker becomes busy with the task, and the task leaves the graph.  The answer 0 of
`selectBestWorker` means *not now*, so a worker registered under id 0 is never used.

`select_best_worker` has three stages.  A: the first idle worker with every required capability.  B,
only with the locality preference on: the idle worker that holds most input bytes among those with the
best partial match.  C, only if the task may degrade: a best partial match, or any idle worker.

* `stageA_error`, `stageA_ok` — what the loop of stage A finds out about the idle workers;
* `selectBestWorker_spec` — what the answer of the three stages says about the idle workers;
* `capability_contract_iff` — **the capability contract** of a scheduled task holds exactly if the task
  may degrade or some idle worker offers all it asks for.  Stage B does not look at whether the task may
  degrade.

`now` is the reading of the steady clock and `seconds` the conversion `duration<double>::count()` of a
difference of readings.  Worker ids are unbounded here; the score buffer of the source, indexed by
worker id, is a list of that length.
-/

namespace Fly.Task

open Fly.Lib List WorkerManager Ieee

structure ScheduleResult where
  taskId : ℕ := 0
  workerId : ℕ := 0
  scheduled : Bool := false
  degraded : Bool := false
  deriving DecidableEq

structure TaskScheduler where
  graph : DependencyGraph := {}
  manager : WorkerManager := {}
  localityEnabled : Bool := false

/-! ### Capability matches -/

/-- `capability_match_count`: how many of the required capabilities the worker offers. -/
def WorkerManager.capabilityMatchCount (m : WorkerManager) (wid : ℕ) (reqs : List String) : ℕ :=
  match m.workers.lookup wid with
  | none => 0
  | some info => reqs.countP fun req => req ∈ info.capabilities

/-! ### Locality scores -/

structure ScoreEntry where
  workerId : ℕ := 0
  score : ℤ := 0
  deriving DecidableEq

/-- `score_desc_compare`, as the non-strict order it sorts by. -/
def ScoreEntry.before (a b : ScoreEntry) : Prop :=
  b.score < a.score ∨ (a.score = b.score ∧ a.workerId ≤ b.workerId)

instance : DecidableRel ScoreEntry.before := fun _ _ => inferInstanceAs (Decidable (_ ∨ _))

/-- `compute_scores`: one slot per id up to the largest one; a slot without a worker keeps worker id 0,
also when a hint sets its score. -/
def WorkerManager.computeScores (m : WorkerManager) (hint : List (ℕ × ℤ)) : List ScoreEntry :=
  let maxId := (m.getAllWorkers.map Prod.fst).foldl max 0
  let buf := (List.range (maxId + 1)).map fun id =>
    if id ∈ m.workers then ({ workerId := id } : ScoreEntry) else {}
  hint.foldl (fun buf h => buf.modify h.1 fun e => { e with score := h.2 }) buf

/-! ### Choosing a worker -/

/-- The loop of stage A over the idle workers, with the best partial match so far; `error` is the early
return of a full match. -/
def stageA (count : ℕ → ℕ) (full : ℕ) : List ℕ → ℕ → ℕ → Except ℕ (ℕ × ℕ)
  | [], bestWorker, bestCount => .ok (bestWorker, bestCount)
  | wid :: rest, bestWorker, bestCount =>
    if count wid = full then .error wid
    else if bestCount < count wid then stageA count full rest wid (count wid)
    else stageA count full rest bestWorker bestCount

namespace TaskScheduler

variable (s : TaskScheduler)

/-- The score buffer in the order stage B reads it. -/
def rankedScores (reqs : TaskRequirements) : List ScoreEntry :=
  (s.manager.computeScores reqs.localityHint).insertionSort ScoreEntry.before

/-- `select_best_worker`; 0 stands for no worker. -/
def selectBestWorker (taskId : ℕ) (allowDegrade : Bool) (idle : List ℕ) : ℕ :=
  match idle with
  | [] => 0
  | firstIdle :: _ =>
    let reqs := s.graph.getTaskRequirements taskId
    let caps := reqs.capabilities
    if caps = [] then
      -- no capability asked for: the best score among the idle workers, if locality counts
      match if s.localityEnabled then
          (s.rankedScores reqs).find? (fun entry => decide (entry.workerId ∈ idle)) else none with
      | some entry => entry.workerId
      | none => firstIdle
    else
      let count := fun wid => s.manager.capabilityMatchCount wid caps
      match stageA count caps.length idle 0 0 with
      | .error wid => wid
      | .ok (bestPartialWorker, bestPartialCount) =>
        match if s.localityEnabled ∧ 0 < bestPartialCount then
            (s.rankedScores reqs).find? (fun entry =>
              decide (entry.workerId ∈ idle) && decide (bestPartialCount ≤ count entry.workerId))
          else none with
        | some entry => entry.workerId
        | none =>
          if allowDegrade then (if bestPartialWorker ≠ 0 then bestPartialWorker else firstIdle)
          else 0

/-- Whether the timeout of the task lets it degrade at this moment. -/
def allowDegrade (seconds : ℤ → Ieee) (now : ℤ) (taskId : ℕ) : Bool :=
  let timeout := (s.graph.getTaskRequirements taskId).timeoutSeconds
  if le zero timeout then
    if eq timeout zero then true
    else
      match s.graph.getTaskReadyTimestamp taskId with
      | some readyTime => le timeout (seconds (now - readyTime))
      | none => false
  else false

/-- The flag `degraded_`: only looked at for a task that may degrade. -/
def isDegraded (allowDegrade : Bool) (caps : List String) (workerId : ℕ) : Bool :=
  allowDegrade && !caps.isEmpty && match s.manager.workers.lookup workerId with
    | some _ => decide (s.manager.capabilityMatchCount workerId caps < caps.length)
    | none => false

/-- The loop of `schedule_next` over the ready tasks. -/
def pickTask (seconds : ℤ → Ieee) (now : ℤ) (idle : List ℕ) : List ℕ → Option ScheduleResult
  | [] => none
  | taskId :: rest =>
    let allowed := s.allowDegrade seconds now taskId
    let workerId := s.selectBestWorker taskId allowed idle
    if workerId = 0 then pickTask seconds now idle rest
    else some
      { taskId := taskId
        workerId := workerId
        scheduled := true
        degraded := s.isDegraded allowed (s.graph.getTaskRequirements taskId).capabilities workerId }

def scheduleNext (seconds : ℤ → Ieee) (now : ℤ) : ScheduleResult × TaskScheduler :=
  match s.pickTask seconds now s.manager.getIdleWorkers s.graph.getReadyTasks with
  | none => ({}, s)
  | some r =>
    (r, { s with
      manager := s.manager.assignTask r.workerId r.taskId
      graph := s.graph.removeTask r.taskId })

end TaskScheduler

/-! ### The loop of stage A -/

section StageA

variable {count : ℕ → ℕ} {full w₀ c₀ : ℕ} {idle : List ℕ}

theorem stageA_error {wid : ℕ} (h : stageA count full idle w₀ c₀ = .error wid) :
    wid ∈ idle ∧ count wid = full := by
  induction idle generalizing w₀ c₀ with
  | nil => cases h
  | cons x rest ih =>
    rw [stageA] at h
    split at h
    case isTrue hx =>
      cases h
      exact ⟨mem_cons_self, hx⟩
    case isFalse =>
      split at h
      all_goals exact ⟨mem_cons_of_mem x (ih h).1, (ih h).2⟩

/-- Without a full match, stage A ends with an upper bound of all matches that some worker attains, or
with its start values when nothing exceeds them. -/
theorem stageA_ok {w c : ℕ} (h : stageA count full idle w₀ c₀ = .ok (w, c)) :
    (∀ x ∈ idle, count x ≠ full) ∧ (∀ x ∈ idle, count x ≤ c) ∧ c₀ ≤ c ∧
      ((w = w₀ ∧ c = c₀) ∨ (w ∈ idle ∧ count w = c ∧ c₀ < c)) := by
  induction idle generalizing w₀ c₀ with
  | nil =>
    cases h
    exact ⟨by simp, by simp, le_rfl, .inl ⟨rfl, rfl⟩⟩
  | cons x rest ih =>
    rw [stageA] at h
    split at h
    case isTrue => cases h
    case isFalse hx =>
      split at h
      case isTrue hlt =>
        obtain ⟨hfull, hle, hc, hbest⟩ := ih h
        refine ⟨?_, ?_, by omega, .inr ?_⟩
        · simpa [hx] using hfull
        · simpa [hc] using hle
        · rcases hbest with ⟨rfl, rfl⟩ | ⟨hmem, hcount, hlt'⟩
          · exact ⟨mem_cons_self, rfl, hlt⟩
          · exact ⟨mem_cons_of_mem x hmem, hcount, by omega⟩
      case isFalse hnot =>
        obtain ⟨hfull, hle, hc, hbest⟩ := ih h
        refine ⟨?_, ?_, hc, ?_⟩
        · simpa [hx] using hfull
        · have : count x ≤ c := by omega
          simpa [this] using hle
        · rcases hbest with hbest | ⟨hmem, hcount, hlt'⟩
          · exact .inl hbest
          · exact .inr ⟨mem_cons_of_mem x hmem, hcount, hlt'⟩

end StageA

/-! ### What a worker offers -/

/-- The worker is recorded with this capability. -/
def WorkerManager.Offers (m : WorkerManager) (wid : ℕ) (cap : String) : Prop :=
  ∃ info, m.workers.lookup wid = some info ∧ cap ∈ info.capabilities

theorem WorkerManager.capabilityMatchCount_le (m : WorkerManager) (wid : ℕ) (caps : List String) :
    m.capabilityMatchCount wid caps ≤ caps.length := by
  unfold capabilityMatchCount
  split
  · exact Nat.zero_le _
  · exact countP_le_length

theorem WorkerManager.capabilityMatchCount_eq_length {m : WorkerManager} {wid : ℕ} {caps : List String} :
    m.capabilityMatchCount wid caps = caps.length ↔ ∀ c ∈ caps, m.Offers wid c := by
  unfold capabilityMatchCount WorkerManager.Offers
  cases h : m.workers.lookup wid with
  | none =>
    cases caps with
    | nil => simp
    | cons c caps =>
      constructor
      · exact nofun
      · intro hall
        obtain ⟨info, hinfo, -⟩ := hall c mem_cons_self
        cases hinfo
  | some info => simp [countP_eq_length]

/-! ### When a task may degrade -/

namespace TaskScheduler

variable (s : TaskScheduler) (seconds : ℤ → Ieee) (now : ℤ)

/-- The timeout of the task has passed since it became ready. -/
def Elapsed (taskId : ℕ) : Prop :=
  ∃ readyTime, s.graph.getTaskReadyTimestamp taskId = some readyTime ∧
    le (s.graph.getTaskRequirements taskId).timeoutSeconds (seconds (now - readyTime)) = true

/-- A negative timeout, or a positive one that has not passed: only a full match will do. -/
def MustMatch (taskId : ℕ) : Prop :=
  lt (s.graph.getTaskRequirements taskId).timeoutSeconds zero = true ∨
    (lt zero (s.graph.getTaskRequirements taskId).timeoutSeconds = true ∧ ¬s.Elapsed seconds now taskId)

/-- A zero timeout, or a positive one that has passed. -/
def MayDegrade (taskId : ℕ) : Prop :=
  eq (s.graph.getTaskRequirements taskId).timeoutSeconds zero = true ∨
    (lt zero (s.graph.getTaskRequirements taskId).timeoutSeconds = true ∧ s.Elapsed seconds now taskId)

variable {s seconds now}

variable {taskId w : ℕ} {r : ScheduleResult} {allowed : Bool} {idle : List ℕ}

theorem elapsed_iff : (match s.graph.getTaskReadyTimestamp taskId with
      | some readyTime => le (s.graph.getTaskRequirements taskId).timeoutSeconds (seconds (now - readyTime))
      | none => false) = true ↔ s.Elapsed seconds now taskId := by
  unfold Elapsed
  cases s.graph.getTaskReadyTimestamp taskId with
  | none => simp
  | some readyTime => simp

theorem allowDegrade_iff : s.allowDegrade seconds now taskId = true ↔ s.MayDegrade seconds now taskId := by
  unfold allowDegrade MayDegrade
  rw [← elapsed_iff]
  generalize (s.graph.getTaskRequirements taskId).timeoutSeconds = timeout
  cases hzero : eq timeout zero with
  | true => simp [zero_le_of_eq_zero hzero, hzero]
  | false =>
    have hsymm : eq zero timeout = false := by rw [eq_symm, hzero]
    cases hle : le zero timeout <;> simp [lt, hle, hsymm, hzero]

theorem MustMatch.not_allowDegrade (h : s.MustMatch seconds now taskId) :
    s.allowDegrade seconds now taskId = false := by
  rw [← Bool.not_eq_true, allowDegrade_iff]
  rintro (hzero | ⟨hpos, helapsed⟩)
  · rcases h with hneg | ⟨hpos, -⟩
    · have := not_zero_le_of_lt_zero hneg
      rw [zero_le_of_eq_zero hzero] at this
      cases this
    · simp [lt, eq_symm zero, hzero] at hpos
  · rcases h with hneg | ⟨-, hnot⟩
    · have := not_zero_le_of_lt_zero hneg
      simp [lt, this] at hpos
    · exact hnot helapsed

/-! ### What the choice guarantees -/

/-- The chosen worker is idle; it is a full match, or there is none and it is a best match.  Without
the locality preference a task that may not degrade only gets a full match. -/
theorem selectBestWorker_spec
    (hsorted : idle.Pairwise (· ≤ ·)) (hw : s.selectBestWorker taskId allowed idle = w)
    (hne : w ≠ 0) (caps : List String)
    (hcaps : caps = (s.graph.getTaskRequirements taskId).capabilities) :
    w ∈ idle ∧ (s.manager.capabilityMatchCount w caps = caps.length ∨
        ((∀ x ∈ idle, s.manager.capabilityMatchCount x caps ≠ caps.length) ∧ (∀ x ∈ idle,
            s.manager.capabilityMatchCount x caps ≤ s.manager.capabilityMatchCount w caps) ∧
          (s.localityEnabled = true ∨ allowed = true))) := by
  cases idle with
  | nil => exact absurd hw.symm hne
  | cons firstIdle rest =>
    simp only [selectBestWorker, ← hcaps] at hw
    split at hw
    case isTrue hnil =>
      -- no capability asked for: every worker matches
      subst hnil
      have hfull : ∀ x, s.manager.capabilityMatchCount x [] = ([] : List String).length := by
        intro x
        exact Nat.le_zero.mp (s.manager.capabilityMatchCount_le x [])
      refine ⟨?_, .inl (hfull w)⟩
      split at hw
      case h_1 entry hfind =>
        subst hw
        split at hfind
        · simpa using List.find?_some hfind
        · cases hfind
      case h_2 =>
        subst hw
        exact mem_cons_self
    case isFalse hcne =>
      split at hw
      case h_1 wid hA =>
        subst hw
        obtain ⟨hmem, hfull⟩ := stageA_error hA
        exact ⟨hmem, .inl hfull⟩
      case h_2 bestWorker bestCount hA =>
        obtain ⟨hnofull, hmax, -, hbest⟩ := stageA_ok hA
        split at hw
        case h_1 entry hfind =>
          -- stage B
          subst hw
          split at hfind
          case isTrue hloc =>
            have hentry := List.find?_some hfind
            simp only [Bool.and_eq_true, decide_eq_true_eq] at hentry
            refine ⟨hentry.1, .inr ⟨hnofull, ?_, .inl hloc.1⟩⟩
            intro x hx
            exact (hmax x hx).trans hentry.2
          case isFalse => cases hfind
        case h_2 =>
          -- stage C
          split at hw
          case isFalse => exact absurd hw.symm hne
          case isTrue hallowed =>
            split at hw
            case isTrue hbw =>
              subst hw
              rcases hbest with ⟨rfl, -⟩ | ⟨hmem, hcount, -⟩
              · exact absurd rfl hbw
              · refine ⟨hmem, .inr ⟨hnofull, ?_, .inr hallowed⟩⟩
                intro x hx
                rw [hcount]
                exact hmax x hx
            case isFalse hbw =>
              subst hw
              refine ⟨mem_cons_self, .inr ⟨hnofull, ?_, .inr hallowed⟩⟩
              rw [not_not] at hbw
              subst hbw
              rcases hbest with ⟨-, rfl⟩ | ⟨hmem, -, -⟩
              · intro x hx
                exact (hmax x hx).trans (Nat.zero_le _)
              -- the best match is worker 0, which then is the first idle one
              have hle : firstIdle ≤ 0 := by
                rcases mem_cons.mp hmem with h0 | h0
                · omega
                · exact (pairwise_cons.mp hsorted).1 0 h0
              exact absurd (Nat.le_zero.mp hle) hne

/-- The task `schedule_next` places comes from the ready list, with the worker chosen for it. -/
theorem pickTask_spec {ready : List ℕ} (h : s.pickTask seconds now idle ready = some r) :
    r.taskId ∈ ready ∧ r.workerId ≠ 0 ∧ r.scheduled = true ∧
      s.selectBestWorker r.taskId (s.allowDegrade seconds now r.taskId) idle = r.workerId ∧
      r.degraded = s.isDegraded (s.allowDegrade seconds now r.taskId)
        (s.graph.getTaskRequirements r.taskId).capabilities r.workerId := by
  induction ready with
  | nil => cases h
  | cons taskId rest ih =>
    simp only [pickTask] at h
    split at h
    case isTrue =>
      obtain ⟨hmem, hrest⟩ := ih h
      exact ⟨mem_cons_of_mem taskId hmem, hrest⟩
    case isFalse hne =>
      cases h
      exact ⟨mem_cons_self, hne, rfl, rfl, rfl⟩

theorem scheduleNext_spec (hr : (s.scheduleNext seconds now).1 = r) (h : r.scheduled = true) :
    s.pickTask seconds now s.manager.getIdleWorkers s.graph.getReadyTasks = some r := by
  unfold scheduleNext at hr
  cases hpick : s.pickTask seconds now s.manager.getIdleWorkers s.graph.getReadyTasks with
  | none =>
    rw [hpick] at hr
    subst hr
    cases h
  | some r' =>
    rw [hpick] at hr
    exact congrArg some hr

/-- The capability contract of a placement `r`, over the state it was decided on: a task that must
match got every capability; a task that may degrade got an idle worker with the best match; and the
flag says exactly whether something is lacking. -/
structure CapabilityContract (s : TaskScheduler) (seconds : ℤ → Ieee) (now : ℤ)
    (r : ScheduleResult) : Prop where
  strict : s.MustMatch seconds now r.taskId →
    ∀ c ∈ (s.graph.getTaskRequirements r.taskId).capabilities, s.manager.Offers r.workerId c
  best : s.MayDegrade seconds now r.taskId → r.workerId ∈ s.manager.getIdleWorkers ∧
    ∀ w ∈ s.manager.getIdleWorkers,
      s.manager.capabilityMatchCount w (s.graph.getTaskRequirements r.taskId).capabilities ≤
        s.manager.capabilityMatchCount r.workerId (s.graph.getTaskRequirements r.taskId).capabilities
  degraded_iff : r.degraded = true ↔
    ∃ c ∈ (s.graph.getTaskRequirements r.taskId).capabilities, ¬s.manager.Offers r.workerId c

/-- The flag is the lack of a capability, cut off for tasks that may not degrade. -/
theorem isDegraded_iff {caps : List String} (hw : w ∈ s.manager.getIdleWorkers) :
    s.isDegraded allowed caps w = true ↔ allowed = true ∧ ∃ c ∈ caps, ¬s.manager.Offers w c := by
  obtain ⟨info, hinfo, -⟩ := mem_getIdleWorkers.mp hw
  have hlack : s.manager.capabilityMatchCount w caps < caps.length ↔ ∃ c ∈ caps, ¬s.manager.Offers w c := by
    rw [lt_iff_le_and_ne, Ne, capabilityMatchCount_eq_length]
    simp [s.manager.capabilityMatchCount_le w caps]
  have hnil : (∃ c ∈ caps, ¬s.manager.Offers w c) → caps.isEmpty = false := by
    rintro ⟨c, hc, -⟩
    cases caps with
    | nil => cases hc
    | cons => rfl
  simp only [isDegraded, hinfo, Bool.and_eq_true, decide_eq_true_eq, Bool.not_eq_true', hlack]
  constructor
  · rintro ⟨⟨ha, -⟩, hc⟩
    exact ⟨ha, hc⟩
  · rintro ⟨ha, hc⟩
    exact ⟨⟨ha, hnil hc⟩, hc⟩

theorem pairwise_getIdleWorkers (m : WorkerManager) : m.getIdleWorkers.Pairwise (· ≤ ·) :=
  pairwise_insertionSort (· ≤ ·) _

/-- The contract holds if the task may degrade, or the idle workers include a full match. -/
theorem CapabilityContract.of_full_match
    (hpick : s.pickTask seconds now s.manager.getIdleWorkers s.graph.getReadyTasks = some r)
    (hcond : s.MayDegrade seconds now r.taskId ∨ ∃ w ∈ s.manager.getIdleWorkers,
      ∀ c ∈ (s.graph.getTaskRequirements r.taskId).capabilities, s.manager.Offers w c) :
    CapabilityContract s seconds now r := by
  obtain ⟨-, hne, -, hselect, hdegraded⟩ := pickTask_spec hpick
  obtain ⟨hidle, hmatch⟩ :=
    selectBestWorker_spec (pairwise_getIdleWorkers s.manager) hselect hne _ rfl
  have hflag : r.degraded = true ↔ s.MayDegrade seconds now r.taskId ∧
      ∃ c ∈ (s.graph.getTaskRequirements r.taskId).capabilities, ¬s.manager.Offers r.workerId c := by
    rw [hdegraded, isDegraded_iff hidle, allowDegrade_iff]
  -- a full match is chosen whenever the task may not degrade
  have hfull : ¬s.MayDegrade seconds now r.taskId →
      ∀ c ∈ (s.graph.getTaskRequirements r.taskId).capabilities, s.manager.Offers r.workerId c := by
    intro hmay
    rcases hcond with hcond | ⟨w, hw, hall⟩
    · exact absurd hcond hmay
    · rcases hmatch with hmatch | ⟨hno, -⟩
      · exact capabilityMatchCount_eq_length.mp hmatch
      · exact absurd (capabilityMatchCount_eq_length.mpr hall) (hno w hw)
  refine ⟨?_, ?_, ?_⟩
  · intro hmust
    have hnot := hmust.not_allowDegrade
    rw [← Bool.not_eq_true, allowDegrade_iff] at hnot
    exact hfull hnot
  · intro _
    refine ⟨hidle, fun w hw => ?_⟩
    rcases hmatch with hmatch | ⟨-, hmax, -⟩
    · rw [hmatch]
      exact s.manager.capabilityMatchCount_le w _
    · exact hmax w hw
  · rw [hflag]
    constructor
    · exact And.right
    · rintro ⟨c, hc, hlack⟩
      refine ⟨?_, c, hc, hlack⟩
      by_contra hmay
      exact hlack (hfull hmay c hc)

/-- Without the locality preference stage B is skipped, and the contract always holds. -/
theorem CapabilityContract.of_locality_off (hoff : s.localityEnabled = false)
    (hr : (s.scheduleNext seconds now).1 = r) (h : r.scheduled = true) :
    CapabilityContract s seconds now r := by
  have hpick := scheduleNext_spec hr h
  obtain ⟨-, hne, -, hselect, -⟩ := pickTask_spec hpick
  obtain ⟨hidle, hmatch⟩ :=
    selectBestWorker_spec (pairwise_getIdleWorkers s.manager) hselect hne _ rfl
  refine CapabilityContract.of_full_match hpick ?_
  rcases hmatch with hmatch | ⟨-, -, hloc | hallowed⟩
  · exact .inr ⟨r.workerId, hidle, capabilityMatchCount_eq_length.mp hmatch⟩
  · rw [hoff] at hloc
    cases hloc
  · exact .inl (allowDegrade_iff.mp hallowed)

/-- **The capability contract.**  Whatever the graph, the worker table, the hints and the clock: the
contract of a scheduled task holds exactly if the task may degrade, or some idle worker offers every
capability it requires. -/
theorem capability_contract_iff (s : TaskScheduler) (seconds : ℤ → Ieee) (now : ℤ)
    (r : ScheduleResult) (hr : (s.scheduleNext seconds now).1 = r) (h : r.scheduled = true) :
    CapabilityContract s seconds now r ↔ s.MayDegrade seconds now r.taskId ∨ ∃ w ∈ s.manager.getIdleWorkers,
          ∀ c ∈ (s.graph.getTaskRequirements r.taskId).capabilities, s.manager.Offers w c := by
  have hpick := scheduleNext_spec hr h
  refine ⟨?_, CapabilityContract.of_full_match hpick⟩
  rintro ⟨-, -, hiff⟩
  obtain ⟨-, hne, -, hselect, hdegraded⟩ := pickTask_spec hpick
  obtain ⟨hidle, -⟩ := selectBestWorker_spec (pairwise_getIdleWorkers s.manager) hselect hne _ rfl
  by_cases hmay : s.MayDegrade seconds now r.taskId
  · exact .inl hmay
  -- the flag is off, so nothing is lacking and the chosen worker is the full match
  refine .inr ⟨r.workerId, hidle, fun c hc => ?_⟩
  by_contra hlack
  have hflag := hiff.mpr ⟨c, hc, hlack⟩
  rw [hdegraded, isDegraded_iff hidle, allowDegrade_iff] at hflag
  exact hmay hflag.1

/-- One ready task that waits for ever for a worker with both capabilities, one idle worker with the
given ones, locality on. -/
def gpuPool (offered : List String) : TaskScheduler where
  graph := (({} : DependencyGraph).addTask (fun _ => ⟨0, 0⟩) 1 []
    { capabilities := ["gpu", "ssd"], timeoutSeconds := .fin (-1) }).getD {}
  manager := registerWorker {} 0 1 { capabilities := offered }
  localityEnabled := true

theorem of_locality_off_gpuPool : CapabilityContract { gpuPool ["ssd", "gpu"] with localityEnabled := false }
    (fun _ => .zero) 0 ⟨1, 1, true, false⟩ := .of_locality_off rfl (by decide) rfl

theorem capability_contract_iff_full :
    CapabilityContract (gpuPool ["ssd", "gpu"]) (fun _ => .zero) 0 ⟨1, 1, true, false⟩ ↔
      (gpuPool ["ssd", "gpu"]).MayDegrade (fun _ => .zero) 0 1 ∨
        ∃ w ∈ (gpuPool ["ssd", "gpu"]).manager.getIdleWorkers,
          ∀ c ∈ ((gpuPool ["ssd", "gpu"]).graph.getTaskRequirements 1).capabilities,
            (gpuPool ["ssd", "gpu"]).manager.Offers w c :=
  capability_contract_iff (gpuPool ["ssd", "gpu"]) (fun _ => .zero) 0 ⟨1, 1, true, false⟩
    (by decide) rfl

/-- A task with a negative timeout is placed on a worker that lacks `ssd`, and not flagged. -/
theorem capability_contract_broken : ((gpuPool ["gpu"]).scheduleNext (fun _ => .zero) 0).1 =
        { taskId := 1, workerId := 1, scheduled := true, degraded := false } ∧
      lt ((gpuPool ["gpu"]).graph.getTaskRequirements 1).timeoutSeconds zero = true ∧
      ¬(gpuPool ["gpu"]).manager.Offers 1 "ssd" ∧
      ¬CapabilityContract (gpuPool ["gpu"]) (fun _ => .zero) 0
        ((gpuPool ["gpu"]).scheduleNext (fun _ => .zero) 0).1 := by
  have hresult : ((gpuPool ["gpu"]).scheduleNext (fun _ => .zero) 0).1 =
      { taskId := 1, workerId := 1, scheduled := true, degraded := false } := by decide
  have hneg : lt ((gpuPool ["gpu"]).graph.getTaskRequirements 1).timeoutSeconds zero =
      true := by decide
  have hlack : ¬(gpuPool ["gpu"]).manager.Offers 1 "ssd" := by
    rintro ⟨info, hinfo, hmem⟩
    cases hinfo
    simp [freshInfo] at hmem
  refine ⟨hresult, hneg, hlack, fun hcontract => ?_⟩
  exact hlack (hcontract.strict (.inl hneg) "ssd" (by decide))

end TaskScheduler

end Fly.Task
