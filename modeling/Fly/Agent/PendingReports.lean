import Fly.Agent.MasterLink

/-!
# Reports and requests that wait for a registration

What a task reports while the worker is not registered waits in `pending_reports_`, what it requests in
`pending_master_sends_`; `on_register_ack` drains both once, after it has set the flags.  The decision to
buffer is taken on the flags before the push, so a push can come after the only drain.

* `Awaited` — a drain of a queue is still to come, or the worker is about to leave the registered state;
* `Waiting` — **the invariant**: what is in a queue is awaited;
* `Instr.carries`, `deliveries`, `reported` — where the reports are: on their way in a thread, in the queue,
  or accepted on the connection current at that time; `conserved_run` — none gets lost;
* `reports_delivered` — nothing is stranded, in the runs in which every push is awaited and every report
  is sent on the current connection while it takes bytes;
* `report_stranded` — the run in which a report is pushed after the drain.
-/

namespace Fly.Agent

open Fly.Lib List LinkWorld Threaded World

namespace MasterLink

variable {ρ μ : Type} {as : List (Action Outside (Call ρ μ))}

/-- After the instruction the queue drained by `drain` is empty, or its drain is the next thing the
thread does, or the worker is no longer registered. -/
def Instr.Settles (drain op : Instr ρ μ) : Prop :=
  op = drain ∨ op = .clearReconnecting ∨ op = .clearRegistered

/-- What is in the queue drained by `drain` will not be forgotten. -/
def Awaited (drain : Instr ρ μ) (w : LinkWorld ρ μ) : Prop :=
  w.shared.registered = false ∨ w.shared.reconnecting = true ∨ w.Has (Instr.Settles drain)

/-- Every push finds a drain still to come, and every report is sent on the connection in `master_conn_`,
which is open and takes the bytes. -/
def InTime (w : LinkWorld ρ μ) (e : Outside) : Instr ρ μ → Prop
  | .pushReport _ => Awaited .flushPendingReports w
  | .enqueueMasterSend _ => Awaited .replayPendingMasterSends w
  | .send conn (.report _) =>
    conn = w.shared.masterConn ∧ conn ∈ w.shared.connections ∧ e.accepts = true
  | _ => True

/-! ### The queues -/

section queues

variable {e : Outside} {s s' : MasterLink ρ μ} {op : Instr ρ μ} {todo rest : List (Instr ρ μ)}
  {w : LinkWorld ρ μ} {i : ℕ}

/-- `reconnecting_` is set by `on_disconnect`, which then clears `registered_`. -/
theorem reconnecting_set_of_exec (h : exec e s op = some (s', todo)) (hrec : s'.reconnecting = true) :
    s.reconnecting = true ∨ .clearRegistered ∈ todo := by
  cases op with
  | setReconnecting =>
    cases hold : s.reconnecting with
    | true => exact .inl rfl
    | false =>
      simp only [exec, hold] at h
      cases h
      exact .inr (by simp)
  | lock | startReconnectThread | connect =>
    refine .inl ?_
    simp only [exec] at h
    split at h <;> cases h
    all_goals exact hrec
  | clearReconnecting | giveUp =>
    cases h
    cases hrec
  | _ =>
    cases h
    exact .inl hrec

theorem pendingReports_of_exec (h : exec e s op = some (s', todo)) (hne : s'.pendingReports ≠ []) :
    (s.pendingReports ≠ [] ∧ op ≠ .flushPendingReports) ∨ ∃ r, op = .pushReport r := by
  cases op with
  | pushReport r => exact .inr ⟨r, rfl⟩
  | flushPendingReports =>
    cases h
    exact absurd rfl hne
  | lock | startReconnectThread | connect =>
    refine .inl ⟨?_, by simp⟩
    simp only [exec] at h
    split at h <;> cases h
    all_goals exact hne
  | _ =>
    cases h
    exact .inl ⟨hne, by simp⟩

theorem pendingMasterSends_of_exec (h : exec e s op = some (s', todo)) (hne : s'.pendingMasterSends ≠ []) :
    (s.pendingMasterSends ≠ [] ∧ op ≠ .replayPendingMasterSends) ∨ ∃ m, op = .enqueueMasterSend m := by
  cases op with
  | enqueueMasterSend m => exact .inr ⟨m, rfl⟩
  | replayPendingMasterSends | clearMasterSends =>
    cases h
    exact absurd rfl hne
  | lock | startReconnectThread | connect =>
    refine .inl ⟨?_, by simp⟩
    simp only [exec] at h
    split at h <;> cases h
    all_goals exact hne
  | _ =>
    cases h
    exact .inl ⟨hne, by simp⟩

/-- The two instructions that drain a queue. -/
def Instr.Drains (op : Instr ρ μ) : Prop :=
  op = .flushPendingReports ∨ op = .replayPendingMasterSends

/-- Both flags are set only inside one of the two lock sections. -/
def InSection (w : LinkWorld ρ μ) : Prop :=
  w.shared.registered = true → w.shared.reconnecting = true →
    w.Has fun op => op = .clearReconnecting ∨ op = .clearRegistered

theorem InSection.exec (hsec : InSection w) (hi : w.threads[i]? = some (op :: rest))
    (h : exec e w.shared op = some (s', todo)) :
    InSection (w.proceed i s' (todo ++ rest)) := by
  intro hreg hrec
  rcases registered_of_exec h hreg with ⟨hreg₀, -⟩ | ⟨conn, -, -, -, rfl⟩
  · rcases reconnecting_set_of_exec h hrec with hrec₀ | hmem
    · rcases (hsec hreg₀ hrec₀).set hi todo s' w.holder with (rfl | rfl) | hhas
      · cases h
        cases hrec
      · cases h
        cases hreg
      · exact hhas
    · exact has_set hi (mem_append_left rest hmem) (.inr rfl) s' w.holder
  · exact has_set hi (mem_append_left rest (by simp)) (.inl rfl) s' w.holder

variable {drain : Instr ρ μ}

/-- A queue stays awaited until it is drained. -/
theorem Awaited.exec (hdrain : drain.Drains) (hsec : InSection w)
    (haw : Awaited drain w) (hi : w.threads[i]? = some (op :: rest)) (hop : op ≠ drain)
    (h : exec e w.shared op = some (s', todo)) :
    Awaited drain (w.proceed i s' (todo ++ rest)) := by
  by_cases hreg : s'.registered = false
  · exact .inl hreg
  rw [Bool.not_eq_false] at hreg
  -- an instruction that settles the queue is still there, unless it has just been executed
  have hstill : w.Has (Instr.Settles drain) →
      Awaited drain (w.proceed i s' (todo ++ rest)) := by
    intro hhas
    rcases hhas.set hi todo s' w.holder with (rfl | rfl | rfl) | hhas'
    · exact absurd rfl hop
    · cases h
      refine .inr (.inr (has_set hi (mem_append_left rest ?_) (.inl rfl) _ w.holder))
      rcases hdrain with rfl | rfl <;> simp
    · cases h
      cases hreg
    · exact .inr (.inr hhas')
  rcases registered_of_exec h hreg with ⟨hreg₀, -⟩ | ⟨conn, -, -, -, rfl⟩
  · rcases haw with hunreg | hrec | hhas
    · rw [hreg₀] at hunreg
      cases hunreg
    · rcases reconnecting_of_exec h hrec with hrec' | hop'
      · exact .inr (.inl hrec')
      · refine hstill ?_
        -- the flag falls while the worker is registered: somebody is inside a lock section
        obtain ⟨thread, hthread, op', hop', hsettles⟩ := hsec hreg₀ hrec
        exact ⟨thread, hthread, op', hop', .inr hsettles⟩
    · exact hstill hhas
  · exact .inr (.inr (has_set hi (mem_append_left rest (by simp)) (.inr (.inl rfl)) s' w.holder))

theorem Awaited.call (haw : Awaited drain w) (thread : List (Instr ρ μ)) :
    Awaited drain { w with threads := w.threads ++ [thread] } := by
  rcases haw with hreg | hrec | hhas
  · exact .inl hreg
  · exact .inr (.inl hrec)
  · exact .inr (.inr (hhas.call thread))

structure Waiting (w : LinkWorld ρ μ) : Prop where
  inSection : InSection w
  reports : w.shared.pendingReports ≠ [] → Awaited .flushPendingReports w
  sends : w.shared.pendingMasterSends ≠ [] → Awaited .replayPendingMasterSends w

theorem Waiting.exec (hwait : Waiting w) (hi : w.threads[i]? = some (op :: rest)) (hok : InTime w e op)
    (h : exec e w.shared op = some (s', todo)) :
    Waiting (w.proceed i s' (todo ++ rest)) := by
  refine ⟨hwait.inSection.exec hi h, ?_, ?_⟩
  · intro hne
    rcases pendingReports_of_exec h hne with ⟨hne₀, hop⟩ | ⟨r, rfl⟩
    · exact (hwait.reports hne₀).exec (.inl rfl) hwait.inSection hi hop h
    · exact .exec (.inl rfl) hwait.inSection hok hi (by simp) h
  · intro hne
    rcases pendingMasterSends_of_exec h hne with ⟨hne₀, hop⟩ | ⟨m, rfl⟩
    · exact (hwait.sends hne₀).exec (.inr rfl) hwait.inSection hi hop h
    · exact .exec (.inr rfl) hwait.inSection hok hi (by simp) h

theorem Waiting.call (hwait : Waiting w) (thread : List (Instr ρ μ)) :
    Waiting { w with threads := w.threads ++ [thread] } := by
  refine ⟨?_, ?_, ?_⟩
  · intro hreg hrec
    exact (hwait.inSection hreg hrec).call thread
  · intro hne
    exact (hwait.reports hne).call thread
  · intro hne
    exact (hwait.sends hne).call thread

theorem waiting_run (hok : (masterLink ρ μ).Meets (atInstr InTime) (init ρ μ) as)
    (h : run (masterLink ρ μ).step (init ρ μ) as = some w) : Waiting w := by
  refine plain_run_meets (I := Waiting) ?_ ?_ ⟨?_, ?_, ?_⟩ hok h
  · intro w g hwait
    exact hwait.call _
  · intro w i e op rest s todo hwait hi htime hexec
    exact hwait.exec hi htime hexec
  · exact nofun
  · intro hne
    exact absurd rfl hne
  · intro hne
    exact absurd rfl hne

/-- The instructions of `reconnect_loop` and of a shutdown. -/
def Instr.background : Instr ρ μ → Bool
  | .loopHead | .checkDeadline | .giveUp | .connect | .storeMasterConn _ | .send _ .register | .awaitAck
  | .loopEnd => true
  | .initiateShutdown | .stopRegistered | .stopRunning | .clearMasterSends | .dropMasterConn
  | .closed _ => true
  | _ => false

/-- The worker is registered, and none of the functions that report, request, acknowledge or notice a
disconnect is being executed. -/
structure Quiet (w : LinkWorld ρ μ) : Prop where
  registered : w.shared.registered = true
  steady : w.shared.reconnecting = false
  background : w.All fun op => op.background = true

theorem Quiet.not_awaited (hquiet : Quiet w) (hdrain : drain.Drains) : ¬Awaited drain w := by
  intro haw
  rcases haw with hreg | hrec | ⟨thread, hthread, op, hop, hsettles⟩
  · rw [hquiet.registered] at hreg
    cases hreg
  · rw [hquiet.steady] at hrec
    cases hrec
  have hback := hquiet.background thread hthread op hop
  rcases hsettles with rfl | rfl | rfl
  · rcases hdrain with rfl | rfl <;> cases hback
  · cases hback
  · cases hback

end queues

/-! ### The reports -/

section reports

variable [DecidableEq ρ]

/-- The instruction has report `r` in hand. -/
def Instr.carries (r : ρ) : Instr ρ μ → ℕ
  | .loadReconnecting r' | .loadRegistered r' | .sendReport r' | .pushReport r'
  | .send _ (.report r') => if r' = r then 1 else 0
  | _ => 0

/-- A send of report `r` that was accepted on the connection current at that time. -/
def delivers (r : ρ) (x : SendRecord ρ μ) : Bool :=
  x.accepted && x.conn == x.masterConn && match x.message with
    | .report r' => r' = r
    | _ => false

def deliveries (r : ρ) (s : MasterLink ρ μ) : ℕ := s.sent.countP (delivers r)

/-- How often `send_master_or_buffer` was called with report `r`. -/
def reported (r : ρ) (as : List (Action Outside (Call ρ μ))) : ℕ :=
  as.countP fun
    | .call (.sendMasterOrBuffer r') => r' = r
    | _ => false

variable {r : ρ} {e : Outside} {s s' : MasterLink ρ μ} {op : Instr ρ μ} {todo : List (Instr ρ μ)}
  {w : LinkWorld ρ μ}

theorem carries_map_sendReport (rs : List ρ) :
    ((rs.map (Instr.sendReport (μ := μ))).map (Instr.carries r)).sum = rs.count r := by
  induction rs with
  | nil => rfl
  | cons r' rs ih =>
    rw [map_cons, map_cons, sum_cons, ih, count_cons, Nat.add_comm]
    simp [Instr.carries]

/-- The places a report can be in: in the hands of the thread, in the queue, or delivered. -/
theorem conserved_exec (hok : InTime w e op) (h : exec e w.shared op = some (s', todo)) :
    (todo.map (Instr.carries r)).sum + s'.pendingReports.count r + deliveries r s' =
      op.carries r + w.shared.pendingReports.count r + deliveries r w.shared := by
  cases op with
  | loadReconnecting r' | loadRegistered r' | checkRegistered m =>
    cases h
    split <;> simp [Instr.carries]
  | pushReport r' =>
    cases h
    simp [Instr.carries, deliveries, count_append, count_singleton]
    omega
  | send conn message =>
    cases h
    cases message with
    | report r' =>
      obtain ⟨rfl, hopen, haccepts⟩ := hok
      simp [Instr.carries, deliveries, delivers, countP_append, countP_singleton, hopen, haccepts]
      omega
    | _ => simp [Instr.carries, deliveries, delivers, countP_append]
  | flushPendingReports =>
    cases h
    rw [carries_map_sendReport]
    simp [Instr.carries, deliveries]
  | loadReplayConn ms =>
    cases h
    simp [Instr.carries, Function.comp_def]
  | lock | startReconnectThread | connect =>
    simp only [exec] at h
    split at h <;> cases h
    all_goals simp [Instr.carries, deliveries]
  | replayPendingMasterSends | checkConnected | checkMasterConn | checkGrace | setReconnecting | loopHead
  | checkDeadline | awaitAck | initiateShutdown =>
    cases h
    split <;> simp [Instr.carries, deliveries]
  | _ =>
    cases h
    simp [Instr.carries, deliveries]

theorem carries_program (g : Call ρ μ) :
    ((program g).map (Instr.carries r)).sum = reported r [.call g] := by
  cases g with
  | sendMasterOrBuffer r' => simp [program, reported, Instr.carries]
  | onRegisterAck conn duplicate => cases duplicate <;> rfl
  | _ => rfl

/-- **No report gets lost on the worker.** -/
theorem conserved_run (hok : (masterLink ρ μ).Meets (atInstr InTime) (init ρ μ) as)
    (h : run (masterLink ρ μ).step (init ρ μ) as = some w) :
    w.weigh (Instr.carries r) + w.shared.pendingReports.count r + deliveries r w.shared =
      reported r as := by
  refine plain_run_history (I := fun as w => w.weigh (Instr.carries r) +
    w.shared.pendingReports.count r + deliveries r w.shared = reported r as) ?_ ?_ rfl hok h
  · intro as w g hcons
    have hcall : reported r (as ++ [.call g]) = reported r as + reported r [.call g] :=
      countP_append
    rw [weigh_call, carries_program, hcall, ← hcons]
    dsimp only
    omega
  · intro as w i e op rest s todo hcons hi htime hexec
    have hstep : reported r (as ++ [.step i e]) = reported r as := by
      simp [reported, countP_append]
    have hweigh := weigh_set (f := Instr.carries r) hi (todo ++ rest) s w.holder
    have hexec' := conserved_exec (r := r) htime hexec
    rw [map_append, sum_append, map_cons, sum_cons] at hweigh
    dsimp only [proceed] at hweigh ⊢
    omega

/-- Nothing waits, and every report handed to `send_master_or_buffer` was accepted on the connection
current at that time. -/
structure Delivered (as : List (Action Outside (Call ρ μ))) (w : LinkWorld ρ μ) : Prop where
  reports : w.shared.pendingReports = []
  sends : w.shared.pendingMasterSends = []
  accepted : ∀ r, deliveries r w.shared = reported r as

theorem carries_eq_zero_of_background (hback : op.background = true) : op.carries r = 0 := by
  cases op with
  | send conn message =>
    cases message with
    | register => rfl
    | report r' => cases hback
    | request m => rfl
  | loadReconnecting r' | loadRegistered r' | sendReport r' | pushReport r' => cases hback
  | _ => rfl

theorem Quiet.weigh_eq_zero (hquiet : Quiet w) : w.weigh (Instr.carries r) = 0 := by
  refine sum_eq_zero fun n hn => ?_
  obtain ⟨thread, hthread, rfl⟩ := mem_map.mp hn
  refine sum_eq_zero fun m hm => ?_
  obtain ⟨op, hop, rfl⟩ := mem_map.mp hm
  exact carries_eq_zero_of_background (hquiet.background thread hthread op hop)

/-- **Nothing is stranded on the worker**, in every interleaving in which pushes find a drain still to
come and reports are sent on the current connection while it takes bytes. -/
theorem reports_delivered {as : List (Action Outside (Call ρ μ))}
    (hok : (masterLink ρ μ).Meets (atInstr InTime) (init ρ μ) as)
    (h : run (masterLink ρ μ).step (init ρ μ) as = some w) (hquiet : Quiet w) :
    Delivered as w := by
  have hwait := waiting_run hok h
  have hreports : w.shared.pendingReports = [] := by
    by_contra hne
    exact hquiet.not_awaited (.inl rfl) (hwait.reports hne)
  have hsends : w.shared.pendingMasterSends = [] := by
    by_contra hne
    exact hquiet.not_awaited (.inr rfl) (hwait.sends hne)
  refine ⟨hreports, hsends, fun r => ?_⟩
  have hcons := conserved_run (r := r) hok h
  rw [hquiet.weigh_eq_zero, hreports] at hcons
  simpa using hcons

instance [DecidableEq μ] (drain : Instr ρ μ) (w : LinkWorld ρ μ) : Decidable (Awaited drain w) :=
  inferInstanceAs (Decidable (_ ∨ _ ∨ ∃ thread ∈ w.threads, ∃ op ∈ thread,
    op = drain ∨ op = .clearReconnecting ∨ op = .clearRegistered))

instance [DecidableEq μ] (w : LinkWorld ρ μ) (e : Outside) : DecidablePred (InTime w e) := by
  intro op
  unfold InTime
  split <;> infer_instance

instance (w : LinkWorld ρ μ) : Decidable (Quiet w) :=
  decidable_of_iff (w.shared.registered = true ∧ w.shared.reconnecting = false ∧
    ∀ thread ∈ w.threads, ∀ op ∈ thread, op.background = true)
    ⟨fun h => ⟨h.1, h.2.1, h.2.2⟩, fun h => ⟨h.1, h.2, h.3⟩⟩

/-- A report during the outage waits for the acknowledgement on connection 2; one after it is sent. -/
def reportedTwice : List (Action Outside (Call ℕ ℕ)) :=
  reconnected ++ [.call (.sendMasterOrBuffer 5), .step 2 {}, .step 2 {},
    .call (.onRegisterAck 2 false)] ++ .replicate 9 (.step 3 {}) ++
    .call (.sendMasterOrBuffer 6) :: .replicate 4 (.step 4 {})

theorem reports_delivered_reportedTwice : ∃ w, run (masterLink ℕ ℕ).step (init ℕ ℕ) reportedTwice = some w ∧
    Quiet w ∧ reported 5 reportedTwice = 1 ∧ Delivered reportedTwice w := by
  have hmeets : (masterLink ℕ ℕ).Meets (atInstr InTime) (init ℕ ℕ)
      reportedTwice :=
    meets_of_decide (by decide +kernel)
  exact exists_and_of_decide (by decide +kernel) fun w hrun hquiet =>
    ⟨by decide, reports_delivered hmeets hrun hquiet⟩

/-- A report finds the worker not registered; before it is pushed, the acknowledgement comes and both
queues are drained. -/
def reportedLate : List (Action Outside (Call ℕ ℕ)) :=
  [.call (.sendMasterOrBuffer 7), .step 0 {}, .step 0 {}, .call (.onRegisterAck 1 false)] ++
    .replicate 7 (.step 1 {}) ++ [.step 0 {}]

/-- **A report pushed after the drain is stranded**: the worker is registered, nothing is being executed,
and the report sits in the queue. -/
theorem report_stranded : ∃ w, run (masterLink ℕ ℕ).step (init ℕ ℕ) reportedLate = some w ∧
    Quiet w ∧ (∀ thread ∈ w.threads, thread = []) ∧ w.shared.pendingReports = [7] ∧
    ¬Delivered reportedLate w := by
  obtain ⟨w, hrun, hquiet, hended, hqueue⟩ := exists_of_decide
    (o := run (masterLink ℕ ℕ).step (init ℕ ℕ) reportedLate)
    (p := fun w => Quiet w ∧ (∀ thread ∈ w.threads, thread = []) ∧ w.shared.pendingReports = [7])
    (by decide +kernel)
  refine ⟨w, hrun, hquiet, hended, hqueue, ?_⟩
  intro hdelivered
  have hempty := hdelivered.reports
  rw [hqueue] at hempty
  cases hempty

end reports

end MasterLink

end Fly.Agent
