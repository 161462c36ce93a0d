import Fly.Lib.Run
import Fly.Task.WorkerManager

/-!
# Connections and grace periods of the workers (`agent/cpp/master_agent.cpp`)

The master maps connections to workers and back, opens a grace period when a connection breaks, and
guards against a second process that registers under an id in use: such a registration is rejected when
the first process is known to be alive, and otherwise deferred while the old connection is probed.

Registrations and disconnects are processed one at a time, so each handler is one function here.  What
the network answers is an argument: `probes` lists the probes that could be sent, each with whether the
old connection was still up right afterwards; the end of the list is a probe that could not be sent.

* `onWorkerRegister`, `onDisconnect`, `onWorkerProbeAck`, `checkGraceDeadlines`,
  `checkDupRegisterDeadlines` — the handlers;
* `LivenessRun.Consistent` — the two maps are inverse to each other, no connected worker is in a grace period,
  and nobody with an open connection has just been declared dead by the grace check;
* `consistent_iff_safe` — **consistency holds along a run exactly if every event is safe.**  The unsafe
  events are a registration that binds a connection in use, and the disconnect of a worker with a
  deferred registration: the handler replays the registration, and then opens a grace period all the same.

What a death or an exit does to tasks and pending calls is not part of this file.
-/

namespace Fly.Agent

open Fly.Lib Fly.Task Table WorkerManager

/-- A registration that waits for the verdict on the old connection. -/
structure DeferredRegister where
  connId : ℕ
  identity : WorkerIdentity
  deadline : ℤ
  deriving DecidableEq

structure Liveness where
  connToWorker : Table ℕ ℕ := ∅
  workerToConn : Table ℕ ℕ := ∅
  graceDeadlines : Table ℕ ℤ := ∅
  manager : WorkerManager := {}
  dupConfirmedAlive : Table ℕ ℤ := ∅
  deferredRegisters : Table ℕ DeferredRegister := ∅
  shutdownPending : SortedSet ℕ := ∅
  exitConfirmed : SortedSet ℕ := ∅
  draining : Bool := false

namespace Liveness

variable (s : Liveness) (now : ℤ) (conn worker : ℕ) (identity : WorkerIdentity)

/-! ### The pieces of the handlers -/

/-- Clear what is left of the old connection of a worker whose probe could not be sent. -/
def unbind (worker conn : ℕ) : Liveness :=
  { s with
    workerToConn := if s.workerToConn.lookup worker = some conn then s.workerToConn.erase worker
      else s.workerToConn
    connToWorker := if s.connToWorker.lookup conn = some worker then s.connToWorker.erase conn
      else s.connToWorker }

def bind : Liveness :=
  { s with
    connToWorker := s.connToWorker.insert conn worker
    workerToConn := s.workerToConn.insert worker conn }

/-- The worker enters the pool: a reconnection if its grace period has just ended this way. -/
def enroll (inGrace : Bool) (worker : ℕ) (identity : WorkerIdentity) : Liveness :=
  { s with
    manager :=
      if inGrace then s.manager.registerWorkerReconnect now.toNat worker identity
      else s.manager.registerWorker now.toNat worker identity }

def endGrace (worker : ℕ) : Liveness :=
  { s with graceDeadlines := s.graceDeadlines.erase worker }

/-- The accepting part of `on_worker_register`. -/
def accept : Liveness :=
  ((s.bind conn worker).endGrace worker).enroll now (decide (worker ∈ s.graceDeadlines)) worker identity

def rejectDeferredRegister (worker : ℕ) : Liveness :=
  { s with deferredRegisters := s.deferredRegisters.erase worker }

/-- The old connection answered a probe less than 30 seconds ago. -/
def confirmedAlive (worker : ℕ) : Bool :=
  match s.dupConfirmedAlive.lookup worker with
  | some t => decide (now - t < 30)
  | none => false

/-- A new process under this id does not inherit the shutdown marks of the last one. -/
def renew (worker : ℕ) : Liveness :=
  { s with
    shutdownPending := s.shutdownPending.erase worker
    exitConfirmed := s.exitConfirmed.erase worker }

@[simp] theorem workerToConn_renew (worker : ℕ) : (s.renew worker).workerToConn = s.workerToConn := rfl

@[simp] theorem confirmedAlive_renew (worker w : ℕ) :
    (s.renew worker).confirmedAlive now w = s.confirmedAlive now w := rfl

/-! ### The handlers -/

/-- The part of `on_worker_register` before the acceptance: whether the registration is accepted, and
the tables after the checks. -/
def admitRegister (now : ℤ) (conn worker : ℕ) (identity : WorkerIdentity) :
    List Bool → Liveness → Bool × Liveness
  | probes, s₀ =>
    let s := s₀.renew worker
    match s.workerToConn.lookup worker with
    | none => (true, s)
    | some existing =>
      if existing = conn then (true, s)
      else if s.confirmedAlive now worker then (false, s.rejectDeferredRegister worker)
      else if existing = 0 then (true, s)
      else
        match probes with
        | [] => (true, s.unbind worker existing)
        | stillConnected :: rest =>
          let deferred := { s with
            deferredRegisters := s.deferredRegisters.insert worker ⟨conn, identity, now + 15⟩ }
          if stillConnected then (false, deferred)
          else
            -- replayed at once: the entry is taken out again
            admitRegister now conn worker identity rest
              { deferred with deferredRegisters := deferred.deferredRegisters.erase worker }

def onWorkerRegister (probes : List Bool) (s : Liveness) : Liveness :=
  let admitted := admitRegister now conn worker identity probes s
  if admitted.1 then admitted.2.accept now conn worker identity else admitted.2

def replayDeferredRegister (probes : List Bool) (worker : ℕ) : Liveness :=
  match s.deferredRegisters.lookup worker with
  | none => s
  | some dr =>
    onWorkerRegister now dr.connId worker dr.identity probes
      { s with deferredRegisters := s.deferredRegisters.erase worker }

/-- `handle_worker_death` and `handle_worker_exit`, as far as these tables go. -/
def retire (status : WorkerStatus) (worker : ℕ) : Liveness :=
  { s.endGrace worker with manager := s.manager.updateWorkerStatus worker status }

/-- The end of `on_disconnect`: normal exit, immediate death, or a grace period. -/
def classifyDisconnect (now reconnectGrace : ℤ) (worker : ℕ) : Liveness :=
  let cleared := s.renew worker
  if worker ∈ s.shutdownPending ∨ worker ∈ s.exitConfirmed then cleared.retire .exited worker
  else if s.draining = true ∨ reconnectGrace ≤ 0 then cleared.retire .dead worker
  else
    { cleared with
      graceDeadlines := cleared.graceDeadlines.insert worker (now + reconnectGrace)
      manager := cleared.manager.setWorkerGrace worker true }

/-- The first part of `on_disconnect`: forget the connection, and the way back if it is this one. -/
def dropConn : Liveness :=
  { s with
    connToWorker := s.connToWorker.erase conn
    workerToConn := if s.workerToConn.lookup worker = some conn then s.workerToConn.erase worker
      else s.workerToConn }

def onDisconnect (now reconnectGrace : ℤ) (probes : List Bool) (conn : ℕ) : Liveness :=
  match s.connToWorker.lookup conn with
  | none => s
  | some worker =>
    let dropped := s.dropConn conn worker
    if worker = 0 then dropped
    else
      let unconfirmed := { dropped with dupConfirmedAlive := dropped.dupConfirmedAlive.erase worker }
      (unconfirmed.replayDeferredRegister now probes worker).classifyDisconnect now reconnectGrace worker

/-- The handler of `WorkerProbeAckMessage`. -/
def onWorkerProbeAck (worker : ℕ) : Liveness :=
  rejectDeferredRegister { s with dupConfirmedAlive := s.dupConfirmedAlive.insert worker now } worker

/-- The workers whose grace period is over. -/
def expiredGrace : List ℕ :=
  ((Table.pairs s.graceDeadlines).filter fun e => decide (e.2 ≤ now)).map Prod.fst

def checkGraceDeadlines : Liveness :=
  (s.expiredGrace now).foldl (fun s worker => s.retire .dead worker) s

def checkDupRegisterDeadlines : Liveness :=
  (((Table.pairs s.deferredRegisters).filter fun e => decide (e.2.deadline ≤ now)).map
    Prod.fst).foldl (fun s worker => s.rejectDeferredRegister worker) s

end Liveness

open Liveness

/-- What reaches these tables.  The last three are set by a worker that announces its exit, by the
shutdown of one worker, and by the start of the drain. -/
inductive LivenessEvent where
  | register (now : ℤ) (probes : List Bool) (conn worker : ℕ) (identity : WorkerIdentity)
  | disconnect (now reconnectGrace : ℤ) (probes : List Bool) (conn : ℕ)
  | probeAck (now : ℤ) (worker : ℕ)
  | checkGrace (now : ℤ)
  | checkDupRegister (now : ℤ)
  | workerExit (worker : ℕ)
  | shutdownWorker (worker : ℕ)
  | startDrain

/-- The tables, and whom the last event declared dead because its grace period was over. -/
structure LivenessRun where
  tables : Liveness := {}
  declaredDead : List ℕ := []

def Liveness.step (s : Liveness) : LivenessEvent → Liveness
  | .register now probes conn worker identity =>
    onWorkerRegister now conn worker identity probes s
  | .disconnect now reconnectGrace probes conn => s.onDisconnect now reconnectGrace probes conn
  | .probeAck now worker => s.onWorkerProbeAck now worker
  | .checkGrace now => s.checkGraceDeadlines now
  | .checkDupRegister now => s.checkDupRegisterDeadlines now
  | .workerExit worker => { s with exitConfirmed := s.exitConfirmed.insert worker }
  | .shutdownWorker worker => { s with shutdownPending := s.shutdownPending.insert worker }
  | .startDrain => { s with draining := true }

def LivenessRun.step (r : LivenessRun) (e : LivenessEvent) : LivenessRun where
  tables := r.tables.step e
  declaredDead :=
    match e with
    | .checkGrace now => r.tables.expiredGrace now
    | _ => []

/-! ### Consistency -/

namespace Liveness

/-- The two maps are inverse to each other. -/
def Inverse (s : Liveness) : Prop :=
  ∀ c w, s.connToWorker.lookup c = some w ↔ s.workerToConn.lookup w = some c

/-- No connected worker is in a grace period. -/
def NoGrace (s : Liveness) : Prop :=
  ∀ w c, s.workerToConn.lookup w = some c → s.graceDeadlines.lookup w = none ∧
    ∀ info, s.manager.workers.lookup w = some info → info.inGrace = false

structure Bound (s : Liveness) : Prop where
  inverse : Inverse s
  noGrace : NoGrace s

/-- The tables consistency is about are the same. -/
structure SameTables (s s' : Liveness) : Prop where
  connToWorker : s'.connToWorker = s.connToWorker
  workerToConn : s'.workerToConn = s.workerToConn
  graceDeadlines : s'.graceDeadlines = s.graceDeadlines
  manager : s'.manager = s.manager

variable {s s' : Liveness}

theorem SameTables.bound (h : SameTables s s') (hb : Bound s) : Bound s' := by
  refine ⟨?_, ?_⟩
  · unfold Inverse
    rw [h.connToWorker, h.workerToConn]
    exact hb.inverse
  · unfold NoGrace
    rw [h.workerToConn, h.graceDeadlines, h.manager]
    exact hb.noGrace

/-! ### Registration -/

/-- Whether a registration is accepted: nobody else holds the id, or every probe that could be sent
found the old connection gone. -/
def accepts (s : Liveness) (now : ℤ) (probes : List Bool) (conn worker : ℕ) : Bool :=
  match s.workerToConn.lookup worker with
  | none => true
  | some existing =>
    if existing = conn then true
    else if s.confirmedAlive now worker then false
    else if existing = 0 then true
    else probes.all (· == false)

/-- What is cleared before an accepted registration. -/
def cleared (s : Liveness) (conn worker : ℕ) : Liveness :=
  match s.workerToConn.lookup worker with
  | none => s
  | some existing => if existing = conn ∨ existing = 0 then s else s.unbind worker existing

variable {now : ℤ} {worker conn : ℕ} {identity : WorkerIdentity}

/-- The branch that probes the old connection, repeated by the replay inside the handler. -/
theorem admitRegister_probing {existing : ℕ}
    (hl : s.workerToConn.lookup worker = some existing) (hconn : existing ≠ conn)
    (hconf : s.confirmedAlive now worker = false) (hzero : existing ≠ 0) (probes : List Bool)
    (identity : WorkerIdentity) :
    ∃ s₁, SameTables s s₁ ∧ admitRegister now conn worker identity probes s = (probes.all (· == false),
        if probes.all (· == false) then s₁.unbind worker existing else s₁) := by
  induction probes generalizing s with
  | nil =>
    refine ⟨s.renew worker, ⟨rfl, rfl, rfl, rfl⟩, ?_⟩
    unfold admitRegister
    simp [hl, hconn, hconf, hzero]
  | cons stillConnected rest ih =>
    unfold admitRegister
    cases stillConnected with
    | true =>
      refine ⟨{ s.renew worker with
        deferredRegisters := (s.renew worker).deferredRegisters.insert worker
          ⟨conn, identity, now + 15⟩ }, ⟨rfl, rfl, rfl, rfl⟩, ?_⟩
      simp [hl, hconn, hconf, hzero]
    | false =>
      -- the entry goes in and comes out again, and the decision is made anew
      obtain ⟨s₁, hsame, heq⟩ := ih (s := { s.renew worker with
        deferredRegisters := ((s.renew worker).deferredRegisters.insert worker
          ⟨conn, identity, now + 15⟩).erase worker }) hl hconf
      refine ⟨s₁, ⟨hsame.1, hsame.2, hsame.3, hsame.4⟩, ?_⟩
      simpa [hl, hconn, hconf, hzero] using heq

/-- **What the checks of `on_worker_register` do**: with the tables untouched so far, they stop there, or
clear the old connection for the acceptance. -/
theorem admitRegister_spec (s : Liveness) (now : ℤ) (probes : List Bool) (conn worker : ℕ)
    (identity : WorkerIdentity) :
    ∃ s₁, SameTables s s₁ ∧ admitRegister now conn worker identity probes s =
      (s.accepts now probes conn worker,
        if s.accepts now probes conn worker then s₁.cleared conn worker else s₁) := by
  have hsame : SameTables s (s.renew worker) := ⟨rfl, rfl, rfl, rfl⟩
  cases hl : s.workerToConn.lookup worker with
  | none =>
    refine ⟨s.renew worker, hsame, ?_⟩
    unfold admitRegister
    simp [accepts, cleared, hl]
  | some existing =>
    by_cases hconn : existing = conn
    · refine ⟨s.renew worker, hsame, ?_⟩
      unfold admitRegister
      simp [accepts, cleared, hl, hconn]
    cases hconf : s.confirmedAlive now worker with
    | true =>
      refine ⟨(s.renew worker).rejectDeferredRegister worker, ⟨rfl, rfl, rfl, rfl⟩, ?_⟩
      unfold admitRegister
      simp [accepts, hl, hconn, hconf]
    | false =>
      by_cases hzero : existing = 0
      · refine ⟨s.renew worker, hsame, ?_⟩
        unfold admitRegister
        simp [accepts, cleared, hl, hconf, hzero]
      · obtain ⟨s₁, hsame₁, heq⟩ := admitRegister_probing hl hconn hconf hzero probes identity
        refine ⟨s₁, hsame₁, ?_⟩
        have hl₁ : s₁.workerToConn.lookup worker = some existing := by
          rw [hsame₁.workerToConn, hl]
        rw [heq]
        simp [accepts, cleared, hl, hl₁, hconn, hconf, hzero]

/-! ### One event at a time -/

/-- The connection is not bound to somebody else, and the worker is not bound to connection 0, which
the handler takes for no connection. -/
def Bindable (s : Liveness) (conn worker : ℕ) : Prop :=
  (∀ w, s.connToWorker.lookup conn = some w → w = worker) ∧
    (s.workerToConn.lookup worker = some 0 → conn = 0)

theorem Bound.unbind (hb : Bound s)
    (hl : s.workerToConn.lookup worker = some conn) : Bound (s.unbind worker conn) := by
  have hl' := (hb.inverse conn worker).mpr hl
  have hw : (s.unbind worker conn).workerToConn = s.workerToConn.erase worker := if_pos hl
  have hc : (s.unbind worker conn).connToWorker = s.connToWorker.erase conn := if_pos hl'
  refine ⟨?_, ?_⟩
  · intro c w
    rw [hw, hc, lookup_erase_eq_some, lookup_erase_eq_some, hb.inverse c w]
    refine and_congr_left fun h => not_congr ⟨?_, ?_⟩
    · rintro rfl
      exact Option.some.inj (((hb.inverse c w).mpr h).symm.trans hl')
    · rintro rfl
      exact Option.some.inj (h.symm.trans hl)
  · intro w c h
    rw [hw, lookup_erase_eq_some] at h
    exact hb.noGrace w c h.2

theorem Bound.cleared (hb : Bound s) (conn worker : ℕ) : Bound (s.cleared conn worker) := by
  unfold Liveness.cleared
  cases hl : s.workerToConn.lookup worker with
  | none => exact hb
  | some existing =>
    simp only
    split
    · exact hb
    · exact hb.unbind hl

theorem lookup_cleared (s : Liveness) (c : ℕ)
    (h : (s.cleared conn worker).workerToConn.lookup worker = some c) : c = conn ∨ c = 0 := by
  unfold cleared at h
  cases hl : s.workerToConn.lookup worker with
  | none => simp [hl] at h
  | some existing =>
    simp only [hl] at h
    split at h
    · rename_i hex
      rw [hl] at h
      exact Option.some.inj h ▸ hex
    · simp [unbind, hl] at h

theorem bindable_cleared_iff (hb : Bound s) :
    (s.cleared conn worker).Bindable conn worker ↔ s.Bindable conn worker := by
  unfold cleared
  cases hl : s.workerToConn.lookup worker with
  | none => exact Iff.rfl
  | some existing =>
    simp only
    split
    · exact Iff.rfl
    · rename_i hex
      rw [not_or] at hex
      have hl' := (hb.inverse existing worker).mpr hl
      simp [Bindable, unbind, hl, hl', hex.2, Ne.symm hex.1]

/-- Accepting keeps the maps inverse exactly if the connection may be bound to this worker. -/
theorem inverse_accept_iff (hinv : Inverse s)
    (hl : ∀ c, s.workerToConn.lookup worker = some c → c = conn ∨ c = 0) :
    Inverse (s.accept now conn worker identity) ↔ s.Bindable conn worker := by
  have hafter : Inverse (s.accept now conn worker identity) ↔
      ∀ c w, c = conn ∧ worker = w ∨ c ≠ conn ∧ s.workerToConn.lookup w = some c ↔
        w = worker ∧ conn = c ∨ w ≠ worker ∧ s.workerToConn.lookup w = some c := by
    refine forall₂_congr fun c w => ?_
    rw [← hinv c w]
    exact iff_congr lookup_insert_eq_some (by rw [hinv c w]; exact lookup_insert_eq_some)
  rw [hafter]
  constructor
  · intro hinv'
    refine ⟨fun w hw => ?_, fun hw => ?_⟩
    · by_contra hne
      rcases (hinv' conn w).mpr (.inr ⟨hne, (hinv conn w).mp hw⟩) with h | h
      · exact hne h.2.symm
      · exact h.1 rfl
    · by_contra hne
      rcases (hinv' 0 worker).mp (.inr ⟨Ne.symm hne, hw⟩) with h | h
      · exact hne h.2
      · exact h.1 rfl
  · rintro ⟨hconn, hzero⟩ c w
    constructor
    · rintro (⟨rfl, rfl⟩ | ⟨hc, h⟩)
      · exact .inl ⟨rfl, rfl⟩
      · refine .inr ⟨?_, h⟩
        rintro rfl
        exact hc ((hl c h).elim id fun hc₀ => hc₀.trans (hzero (hc₀ ▸ h)).symm)
    · rintro (⟨rfl, rfl⟩ | ⟨hw, h⟩)
      · exact .inl ⟨rfl, rfl⟩
      · refine .inr ⟨?_, h⟩
        rintro rfl
        exact hw (hconn w ((hinv c w).mpr h))

/-- Accepting ends the grace period of the worker, if there is one. -/
theorem NoGrace.accept (hgrace : NoGrace s) (now : ℤ) (conn worker : ℕ)
    (identity : WorkerIdentity) : NoGrace (s.accept now conn worker identity) := by
  intro w c h
  have h : (s.workerToConn.insert worker conn).lookup w = some c := h
  rw [lookup_insert_eq] at h
  refine ⟨?_, fun info hinfo => ?_⟩
  · show (s.graceDeadlines.erase worker).lookup w = none
    rw [lookup_erase_eq]
    split
    · rfl
    · rename_i hw
      rw [if_neg hw] at h
      exact (hgrace w c h).1
  · simp only [Liveness.accept, enroll] at hinfo
    by_cases hw : w = worker
    · subst hw
      split at hinfo
      · exact inGrace_registerWorkerReconnect hinfo
      · rw [lookup_registerWorker, if_pos rfl] at hinfo
        exact Option.some.inj hinfo ▸ rfl
    · rw [if_neg hw] at h
      refine (hgrace w c h).2 info ?_
      split at hinfo
      · rwa [lookup_registerWorkerReconnect_of_ne hw] at hinfo
      · rwa [lookup_registerWorker, if_neg hw] at hinfo

/-- A registration keeps the tables bound exactly if it is not accepted or may be bound. -/
theorem bound_register_iff (hb : Bound s) (now : ℤ) (probes : List Bool) (conn worker : ℕ)
    (identity : WorkerIdentity) :
    Bound (onWorkerRegister now conn worker identity probes s) ↔
      (s.accepts now probes conn worker = true → s.Bindable conn worker) := by
  obtain ⟨s₁, hsame, heq⟩ := admitRegister_spec s now probes conn worker identity
  have hb₁ := hsame.bound hb
  unfold onWorkerRegister
  rw [heq]
  by_cases hacc : s.accepts now probes conn worker = true
  · have hclear := hb₁.cleared conn worker
    have hiff : Inverse ((s₁.cleared conn worker).accept now conn worker identity) ↔
        s.Bindable conn worker := by
      rw [inverse_accept_iff hclear.inverse (lookup_cleared s₁), bindable_cleared_iff hb₁]
      unfold Bindable
      rw [hsame.connToWorker, hsame.workerToConn]
    rw [if_pos hacc, if_pos hacc]
    exact ⟨fun h _ => hiff.mp h.inverse,
      fun h => ⟨hiff.mpr (h hacc), hclear.noGrace.accept now conn worker identity⟩⟩
  · rw [if_neg hacc, if_neg hacc]
    exact ⟨fun _ h => absurd h hacc, fun _ => hb₁⟩

/-! ### Disconnects and deadline checks -/

/-- Both ways of forgetting a connection are the same on bound tables. -/
theorem Bound.dropConn (hb : Bound s)
    (hl : s.connToWorker.lookup conn = some worker) : Bound (s.dropConn conn worker) := by
  have hl' := (hb.inverse conn worker).mp hl
  have heq : s.dropConn conn worker = s.unbind worker conn := by
    simp [Liveness.dropConn, Liveness.unbind, hl, hl']
  rw [heq]
  exact hb.unbind hl'

theorem Bound.retire (hb : Bound s) (status : WorkerStatus) (worker : ℕ) :
    Bound (s.retire status worker) := by
  refine ⟨hb.inverse, fun w c h => ⟨?_, fun info hinfo => ?_⟩⟩
  · show (s.graceDeadlines.erase worker).lookup w = none
    rw [lookup_erase_eq]
    split
    · rfl
    · exact (hb.noGrace w c h).1
  · have hinfo : (s.manager.updateWorkerStatus worker status).workers.lookup w = some info := hinfo
    unfold updateWorkerStatus at hinfo
    rw [lookup_update] at hinfo
    split at hinfo
    · rename_i hw
      obtain ⟨old, hold, rfl⟩ := Option.map_eq_some_iff.mp hinfo
      exact (hb.noGrace w c h).2 old (hw ▸ hold)
    · exact (hb.noGrace w c h).2 info hinfo

/-- Classifying a disconnect keeps the tables bound exactly if no grace period is opened for a worker
that has a connection. -/
theorem bound_classify_iff (hgrace : NoGrace s) {reconnectGrace : ℤ}
    (hmarks : worker ∉ s.shutdownPending ∧ worker ∉ s.exitConfirmed) :
    Bound (s.classifyDisconnect now reconnectGrace worker) ↔ Inverse s ∧
      (s.draining = true ∨ reconnectGrace ≤ 0 ∨ s.workerToConn.lookup worker = none) := by
  have hexit : ¬ (worker ∈ s.shutdownPending ∨ worker ∈ s.exitConfirmed) := not_or.mpr hmarks
  have hgrace' : NoGrace (s.renew worker) := hgrace
  unfold classifyDisconnect
  rw [if_neg hexit]
  by_cases hdead : s.draining = true ∨ reconnectGrace ≤ 0
  · rw [if_pos hdead, ← or_assoc]
    constructor
    · intro hb
      exact ⟨hb.inverse, .inl hdead⟩
    · rintro ⟨hinv, -⟩
      have hinv' : Inverse (s.renew worker) := hinv
      exact Bound.retire ⟨hinv', hgrace'⟩ .dead worker
  · rw [if_neg hdead, ← or_assoc, or_iff_right hdead]
    constructor
    · intro hopen
      refine ⟨hopen.inverse, ?_⟩
      cases hc : s.workerToConn.lookup worker with
      | none => rfl
      | some c =>
        have h := (hopen.noGrace worker c hc).1
        rw [lookup_insert_eq, if_pos rfl] at h
        cases h
    · rintro ⟨hinv, hnone⟩
      refine ⟨hinv, fun w c h => ?_⟩
      have hw : w ≠ worker := by
        rintro rfl
        exact absurd (hnone.symm.trans h) (by simp)
      refine ⟨?_, fun info hinfo => ?_⟩
      · rw [lookup_insert_eq, if_neg hw]
        exact (hgrace' w c h).1
      · unfold WorkerManager.setWorkerGrace at hinfo
        rw [lookup_update, if_neg hw] at hinfo
        exact (hgrace' w c h).2 info hinfo

/-- What makes a disconnect safe: if it is about a worker with a deferred registration, then no grace
period is opened afterwards, and the connection that waited is not bound to somebody else. -/
def SafeDisconnect (s : Liveness) (reconnectGrace : ℤ) (conn : ℕ) : Prop :=
  ∀ worker, s.connToWorker.lookup conn = some worker → worker ≠ 0 →
    ∀ dr, s.deferredRegisters.lookup worker = some dr → (s.draining = true ∨ reconnectGrace ≤ 0) ∧
        ∀ w, s.connToWorker.lookup dr.connId = some w → w = worker

theorem bound_disconnect_iff (hb : Bound s) (now reconnectGrace : ℤ) (probes : List Bool) (conn : ℕ) :
    Bound (s.onDisconnect now reconnectGrace probes conn) ↔ s.SafeDisconnect reconnectGrace conn := by
  unfold onDisconnect SafeDisconnect
  cases hl : s.connToWorker.lookup conn with
  | none => simpa using hb
  | some worker =>
    have hl' := (hb.inverse conn worker).mp hl
    have hdrop := hb.dropConn hl
    by_cases hzero : worker = 0
    · simpa [hzero] using hzero ▸ hdrop
    set dropped : Liveness := { s.dropConn conn worker with
      dupConfirmedAlive := (s.dropConn conn worker).dupConfirmedAlive.erase worker } with hdropped
    have hbd : Bound dropped := ⟨hdrop.inverse, hdrop.noGrace⟩
    have hgone : dropped.workerToConn.lookup worker = none := by
      simp [hdropped, dropConn, hl']
    have hconn : ∀ c w, dropped.connToWorker.lookup c = some w ↔
        c ≠ conn ∧ s.connToWorker.lookup c = some w := by
      intro c w
      simp only [hdropped, dropConn, lookup_erase_eq]
      by_cases hc : c = conn <;> simp [hc]
    simp only [Option.some.injEq, forall_eq', hzero, if_false, ne_eq, not_false_eq_true, forall_true_left]
    cases hd : s.deferredRegisters.lookup worker with
    | none =>
      have hreplay : dropped.replayDeferredRegister now probes worker = dropped := by
        have hd' : dropped.deferredRegisters.lookup worker = none := hd
        simp [replayDeferredRegister, hd']
      rw [hreplay]
      simp only [reduceCtorEq, false_implies, implies_true, iff_true]
      by_cases hexit : worker ∈ dropped.shutdownPending ∨ worker ∈ dropped.exitConfirmed
      · have hsame : SameTables dropped (dropped.renew worker) := ⟨rfl, rfl, rfl, rfl⟩
        rw [classifyDisconnect, if_pos hexit]
        exact (hsame.bound hbd).retire .exited worker
      · exact (bound_classify_iff hbd.noGrace (not_or.mp hexit)).mpr ⟨hbd.inverse, .inr (.inr hgone)⟩
    | some dr =>
      -- the registration is accepted, so the worker has a connection again, and no mark is left
      set taken : Liveness := { dropped with
        deferredRegisters := dropped.deferredRegisters.erase worker } with htaken
      have hreplay : dropped.replayDeferredRegister now probes worker =
          (taken.renew worker).accept now dr.connId worker dr.identity := by
        have hd' : dropped.deferredRegisters.lookup worker = some dr := hd
        rw [replayDeferredRegister, hd']
        simp [onWorkerRegister, admitRegister, htaken, hgone]
      have hbr : Bound (taken.renew worker) := ⟨hbd.inverse, hbd.noGrace⟩
      have hgone' : taken.workerToConn.lookup worker = none := hgone
      have hback : ((taken.renew worker).accept now dr.connId worker
          dr.identity).workerToConn.lookup worker ≠ none := by
        simp [accept, enroll, endGrace, bind]
      have hbind : (taken.renew worker).Bindable dr.connId worker ↔
          ∀ w, s.connToWorker.lookup dr.connId = some w → w = worker := by
        constructor
        · intro h w hw
          by_cases hc : dr.connId = conn
          · rw [hc, hl] at hw
            exact (Option.some.inj hw).symm
          · exact h.1 w ((hconn dr.connId w).mpr ⟨hc, hw⟩)
        · intro h
          refine ⟨fun w hw => h w ((hconn dr.connId w).mp hw).2, fun hw => ?_⟩
          exact absurd (hgone'.symm.trans hw) (by simp)
      rw [hreplay, bound_classify_iff (hbr.noGrace.accept now dr.connId worker dr.identity)
        (by simp [accept, enroll, endGrace, bind, renew]),
        inverse_accept_iff hbr.inverse (by simp [hgone']), hbind, or_iff_left hback]
      simp only [Option.some.injEq, forall_eq']
      exact and_comm

theorem mem_expiredGrace :
    worker ∈ s.expiredGrace now ↔ ∃ t, s.graceDeadlines.lookup worker = some t ∧ t ≤ now := by
  simp only [expiredGrace, List.mem_map, List.mem_filter, Prod.exists, mem_pairs, decide_eq_true_eq]
  constructor
  · rintro ⟨w, t, h, rfl⟩
    exact ⟨t, h⟩
  · rintro ⟨t, h⟩
    exact ⟨worker, t, h, rfl⟩

theorem Bound.foldl_retire (hb : Bound s) (workers : List ℕ) :
    Bound (workers.foldl (fun s w => s.retire .dead w) s) ∧
      (workers.foldl (fun s w => s.retire .dead w) s).workerToConn = s.workerToConn := by
  induction workers generalizing s with
  | nil => exact ⟨hb, rfl⟩
  | cons w workers ih => exact ih (hb.retire .dead w)

theorem sameTables_checkDupRegisterDeadlines (s : Liveness) (now : ℤ) :
    SameTables s (s.checkDupRegisterDeadlines now) := by
  unfold checkDupRegisterDeadlines
  generalize ((pairs s.deferredRegisters).filter _).map Prod.fst = workers
  induction workers generalizing s with
  | nil => exact ⟨rfl, rfl, rfl, rfl⟩
  | cons w workers ih =>
    obtain ⟨h₁, h₂, h₃, h₄⟩ := ih (s.rejectDeferredRegister w)
    exact ⟨h₁, h₂, h₃, h₄⟩

end Liveness

/-! ### Whole runs -/

/-- The tables are bound, and the last event declared nobody dead whose connection is open. -/
structure LivenessRun.Consistent (r : LivenessRun) : Prop where
  bound : r.tables.Bound
  declared : ∀ w ∈ r.declaredDead, r.tables.workerToConn.lookup w = none

/-- The events that cannot break the tables: a registration that is not accepted, or whose connection
may be bound to its worker; a disconnect without deferred registration, or one that opens no grace
period; and all the other events. -/
def LivenessEvent.Safe (s : Liveness) : LivenessEvent → Prop
  | .register now probes conn worker _ =>
    s.accepts now probes conn worker = true → s.Bindable conn worker
  | .disconnect _ reconnectGrace _ conn => s.SafeDisconnect reconnectGrace conn
  | _ => True

theorem Liveness.bound_step_iff {s : Liveness} (hb : s.Bound) (e : LivenessEvent) :
    (s.step e).Bound ↔ e.Safe s := by
  cases e with
  | register now probes conn worker identity =>
    exact bound_register_iff hb now probes conn worker identity
  | disconnect now reconnectGrace probes conn =>
    exact bound_disconnect_iff hb now reconnectGrace probes conn
  | checkGrace now => exact iff_of_true (hb.foldl_retire (s.expiredGrace now)).1 trivial
  | checkDupRegister now =>
    exact iff_of_true ((sameTables_checkDupRegisterDeadlines s now).bound hb) trivial
  | _ => exact iff_of_true ⟨hb.inverse, hb.noGrace⟩ trivial

/-- **One event.**  From consistent tables, an event leads to consistent tables exactly if it is
safe. -/
theorem LivenessRun.consistent_step_iff {r : LivenessRun} (hc : r.Consistent) (e : LivenessEvent) :
    (r.step e).Consistent ↔ e.Safe r.tables := by
  rw [← bound_step_iff hc.bound e]
  refine ⟨fun h => h.bound, fun h => ⟨h, fun w hw => ?_⟩⟩
  cases e with
  | checkGrace now =>
    show (r.tables.checkGraceDeadlines now).workerToConn.lookup w = none
    unfold checkGraceDeadlines
    rw [(hc.bound.foldl_retire _).2]
    -- who is in a grace period has no connection
    obtain ⟨t, ht, -⟩ := mem_expiredGrace.mp hw
    refine Option.eq_none_iff_forall_ne_some.mpr fun c hl => ?_
    rw [(hc.bound.noGrace w c hl).1] at ht
    cases ht
  | _ => exact absurd hw List.not_mem_nil

theorem LivenessRun.consistent_empty : LivenessRun.Consistent {} := by
  refine ⟨⟨fun c w => ?_, fun w c h => ?_⟩, fun w hw => absurd hw List.not_mem_nil⟩
  · simp
  · simp at h

/-- **Worker liveness bookkeeping.**  Along a sequence of events the tables stay consistent after each
event exactly if each event is safe in the state it meets. -/
theorem consistent_iff_safe (events : List LivenessEvent) :
    (∀ pre, pre <+: events → (pre.foldl LivenessRun.step {}).Consistent) ↔
      ∀ pre e post, events = pre ++ e :: post → e.Safe (pre.foldl LivenessRun.step {}).tables :=
  foldl_good_iff_safe (I := fun _ => True) (fun _ _ => trivial) LivenessRun.consistent_empty
    fun _ e _ _ hc => LivenessRun.consistent_step_iff hc e

/-- Worker 1 registers on connection 11 and then on connection 12, which is deferred while the probe is
out; connection 11 breaks.  The replay binds connection 12 and the handler still opens a grace period;
the next grace check declares worker 1 dead although connection 12 is open. -/
theorem connected_worker_declared_dead :
    let r := ([.register 0 [] 11 1 {}, .register 1 [true] 12 1 {}, .disconnect 2 30 [] 11,
      .checkGrace 40] : List LivenessEvent).foldl LivenessRun.step {}
    r.tables.workerToConn.lookup 1 = some 12 ∧ r.declaredDead = [1] ∧ ¬r.Consistent := by
  intro r
  have hconn : r.tables.workerToConn.lookup 1 = some 12 := by decide +kernel
  have hdead : r.declaredDead = [1] := by decide +kernel
  refine ⟨hconn, hdead, fun hc => ?_⟩
  have h := hc.declared 1 (by rw [hdead]; exact List.mem_singleton_self 1)
  rw [hconn] at h
  cases h

end Fly.Agent
