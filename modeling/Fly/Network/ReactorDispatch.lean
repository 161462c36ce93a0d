import Fly.Network.ReactorStreams

/-!
# Dispatch is exact and ordered

Whatever the cuts of the streams and the order of the events, the messages that the handlers are given are
those of the frames, each once; a connection's messages outside the serialized domain are handled one after
another in the order of the frames, and the messages of the domain in the order of dispatch.

* `PoolInv` — the lanes; `handled_in_order` — one lane handles in the order of dispatch;
* `step_lowers_work` — nothing but events keeps the reactor going;
* `dispatch_exact` — the whole, over every run;
* `inline_discards_behind_undecodable` — without lanes a frame that does not decode takes with it what stands
  behind it in the buffer.
-/

namespace Fly.Network

open Fly.Lib Fly.Storage List Option Pool Bool Nat ReactorConfig TransportEvent World

variable {μ : Type} {a : ReactorAct} {p : Delivery μ → Bool}

/-! ### The lanes -/

section Lanes

variable {cfg : ReactorConfig} {M : Messages μ} {w w' : World} {i : ℕ}

variable (cfg) in
/-- Every lane is serial, and without lanes nothing waits. -/
structure PoolInv (w : World) : Prop where
  serial : w.pool.Serial cfg.laneIndex
  inline_empty : cfg.handlerLanes = 0 → ∀ i, w.pool.Empty i

theorem poolInv_init : PoolInv cfg init := ⟨serial_init, fun _ _ => rfl⟩

theorem poolInv_perform (h : PoolInv cfg w) (t : Task) : PoolInv cfg (w.perform cfg t) := by
  refine ⟨?_, fun hinline i => ?_⟩
  · show (if cfg.handlerLanes = 0 then w.pool.runNow t else w.pool.submit cfg.laneIndex t).Serial
      cfg.laneIndex
    split
    · rename_i hinline
      exact serial_runNow h.serial (h.inline_empty hinline _)
    · exact serial_submit h.serial t
  · show (if cfg.handlerLanes = 0 then w.pool.runNow t else w.pool.submit cfg.laneIndex t).lanes i =
      ⟨[], none⟩
    rw [if_pos hinline]
    exact h.inline_empty hinline i

theorem poolInv_runEventCallback (h : PoolInv cfg w) (c : ConnId) (e : LifecycleEvent) :
    PoolInv cfg (w.runEventCallback cfg c e) := by
  unfold runEventCallback
  split
  · exact poolInv_perform h _
  · exact h

/-- Only the pool matters. -/
theorem PoolInv.of_pool (h : PoolInv cfg w) (hpool : w'.pool = w.pool) : PoolInv cfg w' := by
  refine ⟨?_, fun hinline i => ?_⟩
  · rw [hpool]
    exact h.serial
  · rw [hpool]
    exact h.inline_empty hinline i

theorem poolInv_step (h : PoolInv cfg w) (hstep : step cfg M w a = some w') :
    PoolInv cfg w' := by
  have hlane : a.event? = none → a ≠ .round → PoolInv cfg w' := by
    intro hevent hround
    obtain ⟨i, pool, hi, hpool, rfl⟩ := lane_cases hstep hevent hround
    refine ⟨?_, fun hinline => ?_⟩
    · rcases hpool with hpool | hpool
      · exact serial_start h.serial hpool
      · exact serial_finish h.serial hpool
    · rw [laneCount, if_pos hinline] at hi
      exact absurd hi (not_lt_zero i)
  cases a with
  | start i | finish i => exact hlane rfl (by intro h; cases h)
  | event e =>
    obtain ⟨-, hstep⟩ := ite_none_right_eq_some.mp hstep
    cases hstep
    cases e with
    | connect conn => exact poolInv_runEventCallback (w := w.setBuffer conn (some [])) (h.of_pool rfl) conn _
    | data conn bytes => exact h.of_pool rfl
    | disconnect conn | error conn code => exact (poolInv_runEventCallback h conn _).of_pool rfl
  | round =>
    obtain ⟨c, -, rfl⟩ := map_eq_some_iff.mp hstep
    unfold dispatchRound
    dsimp only
    split
    · exact h.of_pool rfl
    split
    · exact h.of_pool rfl
    · exact h.of_pool rfl
    · exact h.of_pool rfl
    · exact poolInv_perform (w := w.setBuffer c _) (h.of_pool rfl) _

/-- **A lane handles in the order of dispatch**: the messages of a kind that goes to one lane. -/
theorem handled_in_order (h : PoolInv cfg w)
    (hp : ∀ t d, Task.delivery M t = some d → p d = true → cfg.laneIndex t = i) :
    (∃ done current, w.handled M p = marks done current ∧
      done ++ current.toList <+: (w.dispatched M).filter p) ∧
    (w.pool.Empty i → w.handled M p = marks ((w.dispatched M).filter p) none) := by
  have hlane : ∀ t, ((t.delivery M).filter p).isSome → cfg.laneIndex t = i := by
    intro t ht
    obtain ⟨d, hd⟩ := isSome_iff_exists.mp ht
    obtain ⟨hdel, hpd⟩ := filter_eq_some_iff.mp hd
    exact hp t d hdel hpd
  obtain ⟨done, hsub, hlog⟩ := h.serial.sift hlane
  have hdispatched : w.pool.submitted.filterMap (fun t => (t.delivery M).filter p) =
      (w.dispatched M).filter p := by
    rw [dispatched, filter_filterMap]
  rw [hdispatched] at hsub
  refine ⟨⟨done, _, hlog, ?_⟩, fun hempty => ?_⟩
  · rw [hsub, ← append_assoc]
    exact prefix_append _ _
  · have hlanes : w.pool.lanes i = ⟨[], none⟩ := hempty
    rw [hlanes] at hsub hlog
    have hdone : (w.dispatched M).filter p = done := by
      rw [hsub]
      simp
    rw [hdone]
    exact hlog

variable {d : Delivery μ} {t : Task} {c : ConnId}

theorem delivery_eq_some (h : t.delivery M = some d) : ∃ raw, t = .frame d.conn d.type raw := by
  cases t with
  | callback conn e => cases h
  | frame conn type raw =>
    obtain ⟨x, -, rfl⟩ := map_eq_some_iff.mp h
    exact ⟨raw, rfl⟩

variable (cfg) in
def ReactorConfig.laneOfConn (c : ConnId) : ℕ := c % cfg.handlerLanes % (cfg.handlerLanes + 1)

theorem laneIndex_outside (h : t.delivery M = some d)
    (hd : cfg.outside c d = true) : cfg.laneIndex t = cfg.laneOfConn c := by
  obtain ⟨raw, rfl⟩ := delivery_eq_some h
  rw [outside, and_eq_true, beq_iff_eq, not_eq_true'] at hd
  rw [laneIndex, if_neg (by rw [hd.2]; decide), hd.1, laneOfConn]

theorem laneIndex_inDomain (h : t.delivery M = some d)
    (hd : cfg.inDomain d = true) : cfg.laneIndex t = cfg.handlerLanes := by
  obtain ⟨raw, rfl⟩ := delivery_eq_some h
  rw [inDomain] at hd
  rw [laneIndex, if_pos hd, mod_eq_of_lt (lt_succ_self _)]

theorem inDomain_of_on (h : cfg.inDomainOn c d = true) : cfg.inDomain d = true := by
  rw [inDomainOn, and_eq_true] at h
  exact h.2

/-- In a reactor with nothing to do all its lanes are empty. -/
theorem empty_of_idle (h : PoolInv cfg w) (hidle : w.Idle cfg) (hi : i ≤ cfg.handlerLanes) :
    w.pool.Empty i := by
  by_cases hinline : cfg.handlerLanes = 0
  · exact h.inline_empty hinline i
  · refine hidle.2 i ?_
    rw [laneCount, if_neg hinline]
    omega

end Lanes

/-! ### Work -/

section Work

variable {cfg : ReactorConfig} {M : Messages μ} {w w' : World}

variable {buffer : Bytes} {type : UInt8} {size : ℕ}

theorem length_decode {rest : Bytes} {m : μ}
    (h : M.decode type buffer = some (m, rest)) : rest.length + 8 ≤ buffer.length := by
  unfold Messages.decode at h
  split at h
  · cases h
  split at h
  · cases h
  split at h
  · cases h
  split at h
  · cases h
  split at h
  · cases h
  split at h
  · cases h
  · cases h
    rw [length_drop]
    omega

/-- A round that hands a frame over takes its bytes off. -/
theorem length_restAfter
    (h : cfg.round buffer = .frame type size) :
    (restAfter cfg M type size buffer).length + 8 ≤ buffer.length := by
  have hsize : 8 ≤ size ∧ size ≤ buffer.length := by
    unfold ReactorConfig.round at h
    dsimp only at h
    split at h
    · split at h <;> cases h
    · split at h
      · cases h
      · cases h
        omega
  unfold restAfter
  split
  · cases hdecode : M.decode type buffer with
    | none =>
      show 0 + 8 ≤ buffer.length
      omega
    | some x => exact length_decode hdecode
  · rw [length_drop]
    omega

theorem size_skip (h : cfg.round buffer = .skip size) : 0 < size := by
  unfold ReactorConfig.round at h
  dsimp only at h
  split at h
  · split at h
    · cases h
      omega
    · cases h
  · split at h <;> cases h

theorem pending_perform (cfg : ReactorConfig) (w : World) (t : Task) :
    (w.perform cfg t).pool.pending cfg.laneCount ≤ w.pool.pending cfg.laneCount + 2 := by
  show (if cfg.handlerLanes = 0 then w.pool.runNow t else w.pool.submit cfg.laneIndex t).pending _ ≤ _
  split
  · exact le_add_right _ 2
  · exact pending_submit _ t

/-- **Every step but an event brings the reactor closer to its rest.** -/
theorem step_lowers_work (hevent : a.event? = none) (hstep : step cfg M w a = some w') :
    w'.work cfg < w.work cfg := by
  by_cases hround : a = .round
  · subst hround
    obtain ⟨c, hc, rfl⟩ := map_eq_some_iff.mp hstep
    have hwork : w.work cfg = 3 * (w.buffer c).length + 1 + w.pool.pending cfg.laneCount := by
      rw [work, hc]
      rfl
    have hover : ∀ buffers, ({ w with recvBuffers := buffers, dispatching := none } : World).work cfg <
        w.work cfg := by
      intro buffers
      rw [hwork]
      show 0 + w.pool.pending cfg.laneCount < _
      omega
    unfold dispatchRound
    dsimp only
    split
    · exact hover _
    rename_i hne
    have hpos : 0 < (w.buffer c).length := length_pos_iff.mpr hne
    split
    · exact hover _
    · rename_i size hskip
      have hsize := size_skip hskip
      rw [hwork, work, dispatching_setBuffer, hc]
      show 3 * ((w.setBuffer c (some ((w.buffer c).drop size))).buffer c).length + 1 +
        w.pool.pending cfg.laneCount < _
      rw [buffer_setBuffer_self, length_drop]
      omega
    · exact hover _
    · rename_i type size hframe
      have hrest := length_restAfter (M := M) hframe
      have hpending := pending_perform cfg (w.setBuffer c (some (restAfter cfg M type size (w.buffer c))))
        (.frame c type (rawOf cfg size (w.buffer c)))
      rw [hwork, work, dispatching_perform, dispatching_setBuffer, hc]
      show 3 * ((w.setBuffer c (some (restAfter cfg M type size (w.buffer c)))).buffer c).length + 1 + _ < _
      rw [buffer_setBuffer_self]
      change _ ≤ w.pool.pending cfg.laneCount + 2 at hpending
      omega
  · obtain ⟨i, pool, hi, hpool, rfl⟩ := lane_cases hstep hevent hround
    refine Nat.add_lt_add_left ?_ _
    rcases hpool with hpool | hpool
    · exact pending_start hi hpool
    · exact pending_finish hi hpool

/-- A reactor that is not at rest can go on without another event. -/
theorem exists_step_of_not_idle (h : ¬w.Idle cfg) : ∃ a w', a.event? = none ∧ step cfg M w a = some w' := by
  cases hd : w.dispatching with
  | some c => exact ⟨.round, _, rfl, by rw [step, hd]; rfl⟩
  | none =>
    obtain ⟨i, hi, hne⟩ : ∃ i, i < cfg.laneCount ∧ ¬w.pool.Empty i := by
      by_contra hall
      push Not at hall
      exact h ⟨hd, hall⟩
    rcases start_or_finish hne with ⟨pool, hpool⟩ | ⟨pool, hpool⟩
    · exact ⟨.start i, { w with pool }, rfl, by rw [step, if_pos hi, hpool]; rfl⟩
    · exact ⟨.finish i, { w with pool }, rfl, by rw [step, if_pos hi, hpool]; rfl⟩

end Work

/-! ### The whole -/

section Exact

variable {cfg : ReactorConfig} {M : Messages μ} {sent : ConnId → List (Sent μ)} {acts : List ReactorAct}
  {w : World}

theorem poolInv_of_run (hrun : run (step cfg M) init acts = some w) : PoolInv cfg w :=
  run_invariant (I := PoolInv cfg) (fun _ _ _ _ h hstep => poolInv_step h hstep) poolInv_init hrun

variable {c : ConnId} {frames : List (Sent μ)}

theorem stands_of_run (hfits : ∀ s ∈ frames, s.Fits M)
    (hdec : cfg.handlerLanes = 0 → ∀ s ∈ frames, cfg.registered (s.type M) = true → (s.delivered M).isSome)
    (hcuts : Cuts M frames c (events acts)) (hrun : run (step cfg M) init acts = some w) :
    Stands cfg M frames c (events acts) w := by
  refine run_history (I := fun hist w => Stands cfg M frames c (events hist) w) stands_init ?_ hrun
  intro hist a rest w w' hsplit _ hstands hstep
  refine stands_step hstands hfits hdec ?_ hstep
  have hevents : events acts = events (hist ++ [a]) ++ events rest := by
    rw [hsplit, events, events, events, ← filterMap_append, append_assoc]
    rfl
  rw [hevents] at hcuts
  exact hcuts.of_prefix

/-- Where the loop is not at the connection and all has been received, all frames are through. -/
theorem Standing.done_eq {done rest : List (Sent μ)} {es : List TransportEvent} {ph : Phase}
    {tail : Bytes} (h : Standing cfg M frames c es w ph done rest tail) (hidle : w.dispatching = none)
    (hall : received c es = wire M frames) : done = frames := by
  have hshort : Short M tail rest := h.short.resolve_left (by rw [hidle]; intro h; cases h)
  have htail : tail = wire M rest := by
    rw [h.received_eq, h.frames_eq, wire_append] at hall
    exact append_cancel_left hall
  cases rest with
  | nil => rw [h.frames_eq, append_nil]
  | cons s rest =>
    have hlt : tail.length < (s.bytes M).length := hshort s rfl
    rw [htail, wire_cons, length_append] at hlt
    omega

theorem filter_of_conn (hp : ∀ d, p d = true → d.conn = c)
    (ds : List (Delivery μ)) : ds.filter p = (ds.filter (·.conn == c)).filter p := by
  rw [List.filter_filter]
  refine List.filter_congr fun d _ => ?_
  cases hpd : p d with
  | false => rfl
  | true => simp [hp d hpd]

theorem conn_of_outside (d : Delivery μ) (h : cfg.outside c d = true) : d.conn = c := by
  rw [outside, and_eq_true, beq_iff_eq] at h
  exact h.1

theorem conn_of_inDomainOn (d : Delivery μ) (h : cfg.inDomainOn c d = true) : d.conn = c := by
  rw [inDomainOn, and_eq_true, beq_iff_eq] at h
  exact h.1

/-- Without lanes, every frame of a registered type can be decoded. -/
def Decodes (cfg : ReactorConfig) (M : Messages μ) (frames : List (Sent μ)) : Prop :=
  cfg.handlerLanes = 0 → ∀ s ∈ frames, cfg.registered (s.type M) = true → (s.delivered M).isSome

/-- **Dispatch is exact and ordered**, for every cutting of the streams and every order of the events, with
any number of lanes and any serialized domain; without lanes, on the connections on which every frame of a
registered type can be decoded, whatever comes on the others.

At every moment the messages of a connection outside the domain have been handled one after another in the
order of their frames, the messages of the domain in the order of dispatch, and a connection's messages are
dispatched in the order of its frames.  Once the reactor is at rest every frame of a connection whose bytes
are all there has been given to its handler exactly once; and the reactor comes to rest by itself. -/
theorem dispatch_exact (hfits : ∀ c, ∀ s ∈ sent c, s.Fits M)
    (hcuts : ∀ c, Cuts M (sent c) c (events acts)) (hrun : run (step cfg M) init acts = some w) :
    (∀ c, Decodes cfg M (sent c) → ∃ done current, w.handled M (cfg.outside c) = marks done current ∧
      done ++ current.toList <+: (cfg.expected M c (sent c)).filter (cfg.outside c)) ∧
    (∃ done current, w.handled M cfg.inDomain = marks done current ∧
      done ++ current.toList <+: (w.dispatched M).filter cfg.inDomain) ∧
    (∀ c, Decodes cfg M (sent c) → (w.dispatched M).filter (·.conn == c) <+: cfg.expected M c (sent c)) ∧
    (w.Idle cfg → w.handled M cfg.inDomain = marks ((w.dispatched M).filter cfg.inDomain) none ∧
      ∀ c, Decodes cfg M (sent c) → received c (events acts) = wire M (sent c) →
        (w.dispatched M).filter (·.conn == c) = cfg.expected M c (sent c) ∧
        w.handled M (cfg.outside c) = marks ((cfg.expected M c (sent c)).filter (cfg.outside c)) none ∧
        w.handled M (cfg.inDomainOn c) = marks ((cfg.expected M c (sent c)).filter (cfg.inDomainOn c)) none) ∧
    (¬w.Idle cfg → ∃ a w', a.event? = none ∧ step cfg M w a = some w') ∧
    ∀ a w', a.event? = none → step cfg M w a = some w' → w'.work cfg < w.work cfg := by
  have hpool := poolInv_of_run hrun
  have hstands := fun c hdec => stands_of_run (hfits c) hdec (hcuts c) hrun
  have houtside := fun c => handled_in_order (M := M) hpool (p := cfg.outside c)
    fun t d h hd => laneIndex_outside h hd
  have hdomain := handled_in_order (M := M) hpool (p := cfg.inDomain) fun t d h hd => laneIndex_inDomain h hd
  have hdomainOn := fun c => handled_in_order (M := M) hpool (p := cfg.inDomainOn c)
    fun t d h hd => laneIndex_inDomain h (inDomain_of_on hd)
  have hpart : ∀ c, Decodes cfg M (sent c) →
      (w.dispatched M).filter (·.conn == c) <+: cfg.expected M c (sent c) := by
    intro c hdec
    obtain ⟨ph, done, rest, tail, h⟩ := hstands c hdec
    rw [h.dispatched_eq, h.frames_eq, expected, expected, filterMap_append]
    exact prefix_append _ _
  refine ⟨fun c hdec => ?_, hdomain.1, hpart, fun hidle => ⟨?_, fun c hdec hall => ?_⟩,
    exists_step_of_not_idle, fun a w' => step_lowers_work⟩
  · obtain ⟨⟨done, current, hlog, horder⟩, -⟩ := houtside c
    refine ⟨done, current, hlog, horder.trans ?_⟩
    rw [filter_of_conn conn_of_outside]
    exact (hpart c hdec).filter _
  · exact hdomain.2 (empty_of_idle hpool hidle le_rfl)
  · obtain ⟨ph, done, rest, tail, h⟩ := hstands c hdec
    have hdone := h.done_eq hidle.1 hall
    have hdispatched := h.dispatched_eq
    rw [hdone] at hdispatched
    refine ⟨hdispatched, ?_, ?_⟩
    · have hlane : cfg.laneOfConn c ≤ cfg.handlerLanes := Nat.lt_succ_iff.mp (Nat.mod_lt _ (Nat.succ_pos _))
      rw [(houtside c).2 (empty_of_idle hpool hidle hlane), filter_of_conn conn_of_outside, hdispatched]
    · rw [(hdomainOn c).2 (empty_of_idle hpool hidle le_rfl), filter_of_conn conn_of_inDomainOn, hdispatched]

/-! ### Examples -/

/-- A message, a type that nobody handles, one of the domain, a payload that is not read, a message. -/
def sampleSent : List (Sent Bytes) :=
  [.message [1], .raw 40 [9], .raw 5 [2], .raw 3 [0x7F], .message [3, 4]]

def sampleActs : List ReactorAct :=
  [.event (.connect 1), .event (.data 1 ((wire sampleMessages sampleSent).take 25)), .round, .start 1,
    .finish 1,
    .round, .round, .event (.data 1 ((wire sampleMessages sampleSent).drop 25)), .start 1, .finish 1, .round,
    .round, .start 2, .start 1, .finish 1, .round, .start 1, .finish 2, .finish 1, .round]

theorem sampleCuts (c : ConnId) :
    Cuts sampleMessages (if c = 1 then sampleSent else []) c (events sampleActs) := by
  by_cases hc : c = 1
  · subst hc
    exact ⟨by decide +kernel, by decide +kernel⟩
  have hc' : ¬1 = c := fun h => hc h.symm
  have hevents : events sampleActs = [.connect 1, .data 1 ((wire sampleMessages sampleSent).take 25),
      .data 1 ((wire sampleMessages sampleSent).drop 25)] := rfl
  rw [hevents]
  refine ⟨?_, ?_⟩
  · simp [phase, conn, hc']
  · simp [received, dataOn, hc']

/-- The stream cut in the middle of a frame, with two lanes. -/
theorem dispatch_exact_cutFrame : ∃ w, run (step (sampleConfig 2) sampleMessages) init sampleActs = some w ∧
      w.handled sampleMessages ((sampleConfig 2).outside 1) = marks [⟨1, 3, [1]⟩, ⟨1, 3, [3, 4]⟩] none ∧
      w.handled sampleMessages ((sampleConfig 2).inDomainOn 1) = marks [⟨1, 5, [2]⟩] none := by
  obtain ⟨w, hrun, hdispatching, hlanes⟩ := exists_of_decide
    (o := run (step (sampleConfig 2) sampleMessages) init sampleActs)
    (p := fun w => w.dispatching = none ∧ ∀ i ∈ range 3, w.pool.lanes i = ⟨[], none⟩) (by decide +kernel)
  have hidle : w.Idle (sampleConfig 2) := ⟨hdispatching, fun i hi => hlanes i (mem_range.mpr hi)⟩
  have hfits : ∀ c, ∀ s ∈ (if c = 1 then sampleSent else []), s.Fits sampleMessages := by
    intro c s hs
    by_cases hc : c = 1
    · subst hc
      have hall : ∀ s ∈ sampleSent, 1 + (s.payload sampleMessages).length < 2 ^ 48 := by decide +kernel
      exact hall s hs
    · rw [if_neg hc] at hs
      exact absurd hs not_mem_nil
  obtain ⟨-, -, -, hrest, -⟩ := dispatch_exact hfits sampleCuts hrun
  obtain ⟨-, houtside, hdomain⟩ := (hrest hidle).2 1 (fun h => absurd h (by decide)) (by decide +kernel)
  refine ⟨w, hrun, houtside.trans ?_, hdomain.trans ?_⟩
  all_goals exact congrArg (fun ds => marks ds none) (by decide +kernel)

/-- **Without lanes a frame that does not decode takes the rest of the buffer with it**: the message behind
it is never handled, and the reactor is at rest. -/
theorem inline_discards_behind_undecodable :
    Cuts sampleMessages sampleSent 1 [.data 1 (wire sampleMessages sampleSent)] ∧
      (sampleConfig 0).expected sampleMessages 1 sampleSent = [⟨1, 3, [1]⟩, ⟨1, 5, [2]⟩, ⟨1, 3, [3, 4]⟩] ∧
      ∃ w, run (step (sampleConfig 0) sampleMessages) init
          [.event (.data 1 (wire sampleMessages sampleSent)), .round, .round, .round, .round, .round] =
            some w ∧
        w.Idle (sampleConfig 0) ∧ w.buffer 1 = [] ∧
        w.handled sampleMessages (fun _ => true) = marks [⟨1, 3, [1]⟩, ⟨1, 5, [2]⟩] none := by
  obtain ⟨w, hrun, hdispatching, hbuffer, hhandled⟩ := exists_of_decide
    (o := run (step (sampleConfig 0) sampleMessages) init
      [.event (.data 1 (wire sampleMessages sampleSent)), .round, .round, .round, .round, .round])
    (p := fun w => w.dispatching = none ∧ w.buffer 1 = [] ∧
      w.handled sampleMessages (fun _ => true) = marks [⟨1, 3, [1]⟩, ⟨1, 5, [2]⟩] none) (by decide +kernel)
  refine ⟨⟨by decide +kernel, by decide +kernel⟩, by decide +kernel, w, hrun, ⟨hdispatching, ?_⟩, hbuffer,
    hhandled⟩
  exact fun i hi => absurd hi (not_lt_zero i)

end Exact

end Fly.Network
