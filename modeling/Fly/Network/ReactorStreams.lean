import Fly.Network.Reactor

/-!
# The streams of the reactor

Frames are sent on every connection; their bytes reach the reactor in pieces, in data events of any size,
and the events of the connections come in any order.  Between two steps a connection stands somewhere in its
stream: some frames are through, and the buffer holds what has arrived of the next.

* `received`, `phase`, `Cuts` — what the events of a run bring for a connection;
* `expected` — the calls that the frames of a connection are worth;
* `dispatchRound_bytes`, `dispatchRound_other`, `dispatchRound_of_wait` — a round of the loop;
* `Standing` — a connection between two steps; `stands_step` — **every step keeps it**, whatever the cuts.
-/

namespace Fly.Network

open Fly.Lib Fly.Storage List Option ReactorAct ReactorConfig World

variable {μ : Type}

/-! ### What the events bring -/

def ReactorAct.event? : ReactorAct → Option TransportEvent
  | .event e => some e
  | _ => none

def events (acts : List ReactorAct) : List TransportEvent := acts.filterMap event?

def TransportEvent.dataOn (c : ConnId) : TransportEvent → Option Bytes
  | .data conn bytes => if conn = c then some bytes else none
  | _ => none

/-- The bytes that the data events bring for a connection. -/
def received (c : ConnId) (es : List TransportEvent) : Bytes := (es.filterMap (·.dataOn c)).flatten

inductive Phase where
  | fresh
  | opened
  | closed
  deriving DecidableEq

/-- The events of one connection: it is opened at most once, and after its end there is nothing more. -/
def Phase.next : Phase → TransportEvent → Option Phase
  | .fresh, .connect _ => some .opened
  | .fresh, .data _ _ => some .opened
  | .opened, .data _ _ => some .opened
  | .fresh, .disconnect _ => some .closed
  | .opened, .disconnect _ => some .closed
  | .fresh, .error _ _ => some .closed
  | .opened, .error _ _ => some .closed
  | _, _ => none

def phase (c : ConnId) (es : List TransportEvent) : Option Phase :=
  run Phase.next .fresh (es.filter fun e => e.conn == c)

/-- The events bring the stream of a connection, cut into pieces, up to some point. -/
structure Cuts (M : Messages μ) (frames : List (Sent μ)) (c : ConnId) (es : List TransportEvent) : Prop where
  ordered : (phase c es).isSome
  cut : received c es <+: wire M frames

theorem received_append (c : ConnId) (es fs : List TransportEvent) :
    received c (es ++ fs) = received c es ++ received c fs := by
  simp [received, filterMap_append]

theorem received_data (c : ConnId) (bytes : Bytes) : received c [.data c bytes] = bytes := by
  simp [received, TransportEvent.dataOn]

variable {e : TransportEvent} {c : ConnId}

theorem received_of_dataOn (h : e.dataOn c = none) : received c [e] = [] := by
  simp [received, h]

theorem dataOn_of_ne (h : e.conn ≠ c) : e.dataOn c = none := by
  cases e with
  | data conn bytes => exact if_neg h
  | _ => rfl

theorem phase_own (h : e.conn = c) (es : List TransportEvent) :
    phase c (es ++ [e]) = (phase c es).bind fun ph => ph.next e := by
  simp [phase, filter_append, h, run_append, run_cons]

theorem Cuts.of_prefix {M : Messages μ} {frames : List (Sent μ)} {es fs : List TransportEvent}
    (h : Cuts M frames c (es ++ fs)) : Cuts M frames c es := by
  refine ⟨?_, ?_⟩
  · have hordered := h.ordered
    rw [phase, filter_append, run_append] at hordered
    cases hphase : phase c es with
    | some ph => rfl
    | none =>
      rw [phase] at hphase
      rw [hphase] at hordered
      exact absurd hordered (by simp)
  · have hcut := h.cut
    rw [received_append] at hcut
    exact (prefix_append _ _).trans hcut

/-! ### The calls that the frames are worth -/

namespace ReactorConfig

variable (cfg : ReactorConfig) (M : Messages μ)

/-- The call for one frame: none for a type without a handler, and none for a payload that is not read. -/
def callFor (c : ConnId) (s : Sent μ) : Option (Delivery μ) :=
  if cfg.registered (s.type M) then (s.delivered M).map fun m => ⟨c, s.type M, m⟩ else none

def expected (c : ConnId) (frames : List (Sent μ)) : List (Delivery μ) := frames.filterMap (cfg.callFor M c)

/-- The messages of the connection outside the serialized domain. -/
def outside (c : ConnId) (d : Delivery μ) : Bool := d.conn == c && !cfg.serializedTypes d.type

def inDomain (d : Delivery μ) : Bool := cfg.serializedTypes d.type

def inDomainOn (c : ConnId) (d : Delivery μ) : Bool := d.conn == c && cfg.serializedTypes d.type

end ReactorConfig

namespace World

variable (M : Messages μ) (w : World)

/-- The calls in the order in which their frames were dispatched. -/
def dispatched : List (Delivery μ) := w.pool.submitted.filterMap (Task.delivery M)

/-- The log of the handlers, as far as their calls are of the kind asked for. -/
def handled (p : Delivery μ → Bool) : List (Mark (Delivery μ)) :=
  w.pool.log.filterMap (Mark.sift fun t => (t.delivery M).filter p)

/-- The reactor has nothing to do until the next event. -/
def Idle (cfg : ReactorConfig) : Prop := w.dispatching = none ∧ ∀ i < cfg.laneCount, w.pool.Empty i

/-- What there is to do without another event. -/
def work (cfg : ReactorConfig) : ℕ :=
  (w.dispatching.elim 0 fun c => 3 * (w.buffer c).length + 1) + w.pool.pending cfg.laneCount

end World

/-! ### The steps on the state -/

section Steps

variable {cfg : ReactorConfig} {M : Messages μ} {w : World} {c d : ConnId}

@[simp] theorem buffer_setBuffer_self (b : Bytes) : (w.setBuffer c (some b)).buffer c = b := by
  simp [buffer, setBuffer]

theorem buffer_setBuffer_of_ne (h : c ≠ d) (b : Option Bytes) : (w.setBuffer d b).buffer c = w.buffer c := by
  simp [buffer, setBuffer, Function.update_of_ne h]

@[simp] theorem buffer_perform (t : Task) : (w.perform cfg t).buffer c = w.buffer c := rfl

@[simp] theorem dispatching_perform (t : Task) : (w.perform cfg t).dispatching = w.dispatching := rfl

@[simp] theorem dispatching_setBuffer (b : Option Bytes) :
    (w.setBuffer d b).dispatching = w.dispatching := rfl

@[simp] theorem dispatched_setBuffer (b : Option Bytes) :
    (w.setBuffer d b).dispatched M = w.dispatched M := rfl

theorem submitted_perform (t : Task) : (w.perform cfg t).pool.submitted = w.pool.submitted ++ [t] := by
  show (if cfg.handlerLanes = 0 then w.pool.runNow t else w.pool.submit cfg.laneIndex t).submitted = _
  split <;> rfl

theorem dispatched_perform (t : Task) :
    (w.perform cfg t).dispatched M = w.dispatched M ++ (t.delivery M).toList := by
  rw [dispatched, submitted_perform, filterMap_append, dispatched]
  cases ht : t.delivery M <;> simp [ht]

@[simp] theorem buffer_runEventCallback (e : LifecycleEvent) :
    (w.runEventCallback cfg d e).buffer c = w.buffer c := by
  unfold runEventCallback
  split <;> rfl

@[simp] theorem dispatching_runEventCallback (e : LifecycleEvent) :
    (w.runEventCallback cfg d e).dispatching = w.dispatching := by
  unfold runEventCallback
  split <;> rfl

/-- Callbacks are no deliveries. -/
@[simp] theorem dispatched_runEventCallback (e : LifecycleEvent) :
    (w.runEventCallback cfg d e).dispatched M = w.dispatched M := by
  unfold runEventCallback
  split
  · rw [dispatched_perform]
    exact append_nil _
  · rfl

@[simp] theorem dispatched_handleEvent (e : TransportEvent) :
    (w.handleEvent cfg e).dispatched M = w.dispatched M := by
  cases e with
  | connect conn => exact dispatched_runEventCallback (w := w.setBuffer conn (some [])) .connect
  | data conn bytes => rfl
  | disconnect conn | error conn code => exact dispatched_runEventCallback (w := w) _

theorem buffer_handleEvent_of_ne (h : c ≠ e.conn) :
    (w.handleEvent cfg e).buffer c = w.buffer c := by
  cases e with
  | connect conn =>
    exact (buffer_runEventCallback (w := w.setBuffer conn (some [])) _).trans (buffer_setBuffer_of_ne h _)
  | data conn bytes => exact buffer_setBuffer_of_ne (w := w) h _
  | disconnect conn | error conn code =>
    exact (buffer_setBuffer_of_ne h _).trans (buffer_runEventCallback (w := w) _)

theorem dispatching_handleEvent (cfg : ReactorConfig) (e : TransportEvent) (h : w.dispatching = none) :
    (w.handleEvent cfg e).dispatching = none ∨ (w.handleEvent cfg e).dispatching = some e.conn := by
  cases e with
  | connect conn => exact .inl ((dispatching_runEventCallback (w := w.setBuffer conn (some [])) _).trans h)
  | data conn bytes => exact .inr rfl
  | disconnect conn | error conn code => exact .inl ((dispatching_runEventCallback (w := w) _).trans h)

/-! ### One round -/

variable {s : Sent μ} {rest tail : Bytes}

/-- The handler of a frame is given its message. -/
theorem delivery_frame (hs : s.Fits M) (hreg : cfg.registered (s.type M) = true) :
    Task.delivery M (.frame c (s.type M) (rawOf cfg (s.bytes M).length (s.bytes M ++ rest))) =
      cfg.callFor M c s := by
  have hvalid := cfg.registered_valid _ hreg
  have hraw : ∃ behind, rawOf cfg (s.bytes M).length (s.bytes M ++ rest) = s.bytes M ++ behind := by
    unfold rawOf
    split
    · exact ⟨rest, rfl⟩
    · exact ⟨[], by rw [List.take_left, List.append_nil]⟩
  obtain ⟨behind, hraw⟩ := hraw
  rw [hraw, Task.delivery, Sent.decode_bytes hs hvalid, ReactorConfig.callFor, if_pos hreg, Option.map_map]
  rfl

/-- What a round leaves of the buffer is what stands behind the frame. -/
theorem restAfter_frame (hs : s.Fits M) (hreg : cfg.registered (s.type M) = true)
    (hdec : cfg.handlerLanes = 0 → (s.delivered M).isSome) :
    restAfter cfg M (s.type M) (s.bytes M).length (s.bytes M ++ rest) = rest := by
  unfold restAfter
  split
  · rename_i hinline
    obtain ⟨m, hm⟩ := isSome_iff_exists.mp (hdec hinline)
    rw [Sent.decode_bytes hs (cfg.registered_valid _ hreg), hm]
    rfl
  · exact drop_left

theorem bytes_append_ne_nil (s : Sent μ) (rest : Bytes) : ¬s.bytes M ++ rest = [] := by
  intro h
  have hlength := congrArg List.length h
  rw [length_append, Sent.length_bytes, length_nil] at hlength
  omega

theorem dispatchRound_bytes (hs : s.Fits M)
    (hdec : cfg.handlerLanes = 0 → cfg.registered (s.type M) = true → (s.delivered M).isSome)
    (hbuffer : w.buffer c = s.bytes M ++ rest) :
    (w.dispatchRound cfg M c).buffer c = rest ∧ (w.dispatchRound cfg M c).dispatching = w.dispatching ∧
      (w.dispatchRound cfg M c).dispatched M = w.dispatched M ++ (cfg.callFor M c s).toList := by
  unfold dispatchRound
  rw [hbuffer, if_neg (bytes_append_ne_nil s rest), round_bytes hs]
  cases hreg : cfg.registered (s.type M) with
  | false =>
    rw [if_neg (by decide)]
    refine ⟨by rw [buffer_setBuffer_self, drop_left], rfl, ?_⟩
    rw [dispatched_setBuffer, callFor, if_neg (by rw [hreg]; decide)]
    exact (append_nil _).symm
  | true =>
    rw [if_pos rfl]
    refine ⟨?_, rfl, ?_⟩
    · rw [buffer_perform, buffer_setBuffer_self, restAfter_frame hs hreg fun h => hdec h hreg]
    · rw [dispatched_perform, delivery_frame hs hreg, dispatched_setBuffer]

/-- A round on another connection. -/
theorem dispatchRound_other (cfg : ReactorConfig) (M : Messages μ) (h : c ≠ d) (w : World) :
    (w.dispatchRound cfg M d).buffer c = w.buffer c ∧
      ((w.dispatchRound cfg M d).dispatching = w.dispatching ∨
        (w.dispatchRound cfg M d).dispatching = none) ∧
      ((w.dispatchRound cfg M d).dispatched M).filter (·.conn == c) =
        (w.dispatched M).filter (·.conn == c) := by
  unfold dispatchRound
  dsimp only
  split
  · exact ⟨rfl, .inr rfl, rfl⟩
  split
  · exact ⟨rfl, .inr rfl, rfl⟩
  · exact ⟨buffer_setBuffer_of_ne h _, .inl rfl, rfl⟩
  · exact ⟨buffer_setBuffer_of_ne (w := w) h _, .inr rfl, rfl⟩
  rename_i type size _
  refine ⟨(buffer_setBuffer_of_ne (w := w) h _), .inl rfl, ?_⟩
  rw [dispatched_perform, dispatched_setBuffer, filter_append]
  have hother : ((Task.frame d type (rawOf cfg size (w.buffer d))).delivery M).toList.filter
      (·.conn == c) = [] := by
    have hdc : ¬d = c := fun hdc => h hdc.symm
    rw [Task.delivery]
    cases M.decode type (rawOf cfg size (w.buffer d)) with
    | none => rfl
    | some x => simp [hdc]
  rw [hother, append_nil]

/-- Nothing is at the front of the buffer, or less than a frame: the loop is over. -/
theorem dispatchRound_of_wait (h : w.buffer c = [] ∨ cfg.round (w.buffer c) = .wait) :
    w.dispatchRound cfg M c = { w with dispatching := none } := by
  unfold dispatchRound
  dsimp only
  rcases h with hnil | hwait
  · rw [if_pos hnil]
  · split
    · rfl
    · rw [hwait]

/-- What a lane does changes neither the buffers nor what was dispatched. -/
theorem lane_cases {a : ReactorAct} {w' : World} (h : step cfg M w a = some w') (hevent : a.event? = none)
    (hround : a ≠ .round) :
    ∃ i pool, i < cfg.laneCount ∧ (w.pool.start i = some pool ∨ w.pool.finish i = some pool) ∧
      w' = { w with pool } := by
  cases a with
  | event e => cases hevent
  | round => exact absurd rfl hround
  | start i =>
    obtain ⟨hi, h⟩ := ite_none_right_eq_some.mp h
    obtain ⟨pool, hpool, rfl⟩ := map_eq_some_iff.mp h
    exact ⟨i, pool, hi, .inl hpool, rfl⟩
  | finish i =>
    obtain ⟨hi, h⟩ := ite_none_right_eq_some.mp h
    obtain ⟨pool, hpool, rfl⟩ := map_eq_some_iff.mp h
    exact ⟨i, pool, hi, .inr hpool, rfl⟩

end Steps

/-! ### A connection between two steps -/

section Standing

variable (cfg : ReactorConfig) (M : Messages μ) (frames : List (Sent μ)) (c : ConnId)

/-- Less than the first of the frames. -/
def Short (tail : Bytes) (rest : List (Sent μ)) : Prop := ∀ s ∈ rest.head?, tail.length < (s.bytes M).length

variable {cfg M} in
theorem Short.round {tail : Bytes} {s : Sent μ} {rest : List (Sent μ)} (h : Short M tail (s :: rest))
    (hs : s.Fits M) (hpart : tail <+: wire M (s :: rest)) : cfg.round tail = .wait :=
  have hlt : tail.length < (s.bytes M).length := h s rfl
  round_of_short hs (prefix_of_prefix_length_le hpart (prefix_append _ _) (le_of_lt hlt)) hlt

/-- The frames `done` are through, and of `rest` the bytes `tail` have arrived. -/
structure Standing (es : List TransportEvent) (w : World) (ph : Phase) (done rest : List (Sent μ))
    (tail : Bytes) : Prop where
  phase_eq : phase c es = some ph
  frames_eq : frames = done ++ rest
  received_eq : received c es = wire M done ++ tail
  dispatched_eq : (w.dispatched M).filter (·.conn == c) = cfg.expected M c done
  buffer_eq : ph ≠ .closed → w.buffer c = tail
  not_closed : w.dispatching = some c → ph ≠ .closed
  short : w.dispatching = some c ∨ Short M tail rest
  fresh_empty : ph = .fresh → received c es = []

def Stands (es : List TransportEvent) (w : World) : Prop :=
  ∃ ph done rest tail, Standing cfg M frames c es w ph done rest tail

variable {cfg M frames c} {es : List TransportEvent} {w w' : World}
  {ph : Phase} {done rest : List (Sent μ)} {tail : Bytes}

theorem stands_init : Stands cfg M frames c [] init := by
  refine ⟨.fresh, [], frames, [], ?_⟩
  refine ⟨rfl, rfl, rfl, rfl, fun _ => rfl, nofun, .inr fun s _ => ?_, fun _ => rfl⟩
  rw [Sent.length_bytes, length_nil]
  omega

/-- A step that leaves what concerns the connection. -/
theorem Standing.of_same (h : Standing cfg M frames c es w ph done rest tail)
    (hdispatched : (w'.dispatched M).filter (·.conn == c) = (w.dispatched M).filter (·.conn == c))
    (hbuffer : w'.buffer c = w.buffer c) (hdispatching : w'.dispatching = some c ↔ w.dispatching = some c) :
    Standing cfg M frames c es w' ph done rest tail where
  phase_eq := h.phase_eq
  frames_eq := h.frames_eq
  received_eq := h.received_eq
  dispatched_eq := hdispatched.trans h.dispatched_eq
  buffer_eq hph := hbuffer.trans (h.buffer_eq hph)
  not_closed hd := h.not_closed (hdispatching.mp hd)
  short := h.short.imp_left hdispatching.mpr
  fresh_empty := h.fresh_empty

variable {e : TransportEvent}

/-- The end of a connection: what is in the buffer is given up. -/
theorem Standing.ends
    (h : Standing cfg M frames c es w ph done rest tail) (hph : phase c (es ++ [e]) = some .closed)
    (hdata : e.dataOn c = none) (hshort : Short M tail rest) (hidle : w'.dispatching = none)
    (hdispatched : w'.dispatched M = w.dispatched M) :
    Standing cfg M frames c (es ++ [e]) w' .closed done rest tail where
  phase_eq := hph
  frames_eq := h.frames_eq
  received_eq := by
    rw [received_append, received_of_dataOn hdata, append_nil]
    exact h.received_eq
  dispatched_eq := by
    rw [hdispatched]
    exact h.dispatched_eq
  buffer_eq hne := absurd rfl hne
  not_closed hd := by
    rw [hidle] at hd
    cases hd
  short := Or.inr hshort
  fresh_empty := nofun

theorem stands_other_event (h : Stands cfg M frames c es w) (hne : e.conn ≠ c)
    (hidle : w.dispatching = none) : Stands cfg M frames c (es ++ [e]) (w.handleEvent cfg e) := by
  obtain ⟨ph, done, rest, tail, h⟩ := h
  have hreceived : received c (es ++ [e]) = received c es := by
    rw [received_append, received_of_dataOn (dataOn_of_ne hne), append_nil]
  have hdispatching : (w.handleEvent cfg e).dispatching = some c ↔ w.dispatching = some c := by
    rw [hidle]
    rcases dispatching_handleEvent cfg e hidle with hd | hd
    · rw [hd]
    · rw [hd, some.injEq]
      exact iff_of_false hne (by intro h; cases h)
  have hsame : Standing cfg M frames c es (w.handleEvent cfg e) ph done rest tail :=
    h.of_same (by rw [dispatched_handleEvent]) (buffer_handleEvent_of_ne hne.symm) hdispatching
  exact ⟨ph, done, rest, tail, { hsame with
    phase_eq := by rw [← h.phase_eq]; simp [phase, hne]
    received_eq := hreceived.trans h.received_eq
    fresh_empty := fun hph => hreceived.trans (h.fresh_empty hph) }⟩

theorem stands_own_event (h : Stands cfg M frames c es w) (hown : e.conn = c)
    (hidle : w.dispatching = none) (hordered : (phase c (es ++ [e])).isSome) :
    Stands cfg M frames c (es ++ [e]) (w.handleEvent cfg e) := by
  obtain ⟨ph, done, rest, tail, h⟩ := h
  have hshort : Short M tail rest := h.short.resolve_left (by rw [hidle]; intro h; cases h)
  obtain ⟨ph', hph'⟩ := isSome_iff_exists.mp hordered
  have hnext : ph.next e = some ph' := by
    rw [phase_own hown, h.phase_eq, bind_some] at hph'
    exact hph'
  subst hown
  cases e with
  | connect conn =>
    -- the connection is new: nothing has been received yet
    have hfresh : ph = .fresh ∧ ph' = .opened := by
      cases ph <;> cases hnext
      exact ⟨rfl, rfl⟩
    obtain ⟨rfl, rfl⟩ := hfresh
    have hreceived : received conn (es ++ [.connect conn]) = received conn es := by
      rw [received_append, received_of_dataOn rfl, append_nil]
    have htail : tail = [] := by
      have hempty := h.received_eq.symm.trans (h.fresh_empty rfl)
      exact (append_eq_nil_iff.mp hempty).2
    refine ⟨.opened, done, rest, tail, hph', h.frames_eq, hreceived.trans h.received_eq, ?_, fun _ => ?_, ?_,
      .inr hshort, nofun⟩
    · rw [dispatched_handleEvent]
      exact h.dispatched_eq
    · show ((w.setBuffer conn (some [])).runEventCallback cfg conn .connect).buffer conn = tail
      rw [buffer_runEventCallback, buffer_setBuffer_self, htail]
    · exact nofun
  | data conn bytes =>
    have hphase : ph ≠ .closed ∧ ph' = .opened := by
      cases ph <;> cases hnext
      all_goals exact ⟨nofun, rfl⟩
    obtain ⟨hopen, rfl⟩ := hphase
    refine ⟨.opened, done, rest, tail ++ bytes, hph', h.frames_eq, ?_, ?_, fun _ => ?_, ?_, .inl rfl,
      nofun⟩
    · show received conn (es ++ [.data conn bytes]) = _
      rw [received_append, received_data, show received conn es = wire M done ++ tail from h.received_eq,
        append_assoc]
    · exact h.dispatched_eq
    · show (w.setBuffer conn (some (w.buffer conn ++ bytes))).buffer conn = tail ++ bytes
      rw [buffer_setBuffer_self, show w.buffer conn = tail from h.buffer_eq hopen]
    · exact nofun
  | disconnect conn | error conn code =>
    have hclosed : ph' = .closed := by
      cases ph <;> cases hnext
      · rfl
      · rfl
    subst hclosed
    exact ⟨.closed, done, rest, tail, h.ends hph' rfl hshort
      ((dispatching_runEventCallback (w := w) _).trans hidle) (dispatched_handleEvent _)⟩

/-- A round on the connection itself: a frame goes through, or less than one is there. -/
theorem stands_own_round (h : Stands cfg M frames c es w) (hfits : ∀ s ∈ frames, s.Fits M)
    (hdec : cfg.handlerLanes = 0 → ∀ s ∈ frames, cfg.registered (s.type M) = true → (s.delivered M).isSome)
    (hcut : received c es <+: wire M frames) (hdispatching : w.dispatching = some c) :
    Stands cfg M frames c es (w.dispatchRound cfg M c) := by
  obtain ⟨ph, done, rest, tail, h⟩ := h
  have hopen := h.not_closed hdispatching
  have hbuffer := h.buffer_eq hopen
  have htail : tail <+: wire M rest := by
    rw [h.received_eq, h.frames_eq, wire_append] at hcut
    exact (prefix_append_right_inj _).mp hcut
  by_cases hshort : Short M tail rest
  · -- the loop ends, and the rest waits
    have hwait : w.buffer c = [] ∨ cfg.round (w.buffer c) = .wait := by
      rw [hbuffer]
      cases rest with
      | nil => exact .inl (prefix_nil.mp htail)
      | cons s rest =>
        have hs : s ∈ frames := by rw [h.frames_eq]; simp
        exact .inr (hshort.round (hfits s hs) htail)
    rw [dispatchRound_of_wait hwait]
    exact ⟨ph, done, rest, tail, h.phase_eq, h.frames_eq, h.received_eq, h.dispatched_eq,
      h.buffer_eq, nofun, .inr hshort, h.fresh_empty⟩
  · obtain ⟨s, hhead, hlong⟩ : ∃ s ∈ rest.head?, (s.bytes M).length ≤ tail.length := by
      unfold Short at hshort
      push Not at hshort
      exact hshort
    obtain ⟨rest', rfl⟩ : ∃ rest', rest = s :: rest' := by
      cases rest with
      | nil => cases hhead
      | cons t rest' =>
        cases hhead
        exact ⟨rest', rfl⟩
    have hs : s ∈ frames := by rw [h.frames_eq]; simp
    obtain ⟨tail', rfl⟩ : s.bytes M <+: tail := by
      exact prefix_of_prefix_length_le (prefix_append _ _) htail hlong
    obtain ⟨hrest, hdisp, hcalls⟩ := dispatchRound_bytes (hfits s hs)
      (fun hinline hreg => hdec hinline s hs hreg) hbuffer
    refine ⟨ph, done ++ [s], rest', tail', h.phase_eq, ?_, ?_, ?_, fun _ => hrest, fun _ => hopen, ?_,
      h.fresh_empty⟩
    · rw [h.frames_eq, append_assoc]
      rfl
    · rw [h.received_eq, wire_append, append_assoc, wire_cons, append_assoc]
      rfl
    · rw [hcalls, filter_append, h.dispatched_eq]
      have hown : (cfg.callFor M c s).toList.filter (·.conn == c) = (cfg.callFor M c s).toList := by
        unfold callFor
        split
        · cases s.delivered M <;> simp
        · rfl
      rw [hown, expected, expected, filterMap_append]
      cases hcall : cfg.callFor M c s <;> simp [hcall]
    · rw [hdisp]
      exact .inl hdispatching

/-- **Every step keeps the standing of every connection.** -/
theorem stands_step {a : ReactorAct} {hist : List ReactorAct} (h : Stands cfg M frames c (events hist) w)
    (hfits : ∀ s ∈ frames, s.Fits M)
    (hdec : cfg.handlerLanes = 0 → ∀ s ∈ frames, cfg.registered (s.type M) = true → (s.delivered M).isSome)
    (hcuts : Cuts M frames c (events (hist ++ [a]))) (hstep : step cfg M w a = some w') :
    Stands cfg M frames c (events (hist ++ [a])) w' := by
  have hevents : events (hist ++ [a]) = events hist ++ a.event?.toList := by
    rw [events, filterMap_append, events]
    cases ha : a.event? <;> simp [ha]
  rw [hevents] at hcuts ⊢
  cases a with
  | event e =>
    obtain ⟨hidle, hstep⟩ := ite_none_right_eq_some.mp hstep
    cases hstep
    by_cases hown : e.conn = c
    · exact stands_own_event h hown hidle hcuts.ordered
    · exact stands_other_event h hown hidle
  | round =>
    simp only [event?, toList_none, append_nil] at hcuts ⊢
    obtain ⟨d, hd, rfl⟩ := map_eq_some_iff.mp hstep
    by_cases hcd : c = d
    · subst hcd
      exact stands_own_round h hfits hdec hcuts.cut hd
    obtain ⟨ph, done, rest, tail, h⟩ := h
    obtain ⟨hbuffer, hdispatching, hdispatched⟩ := dispatchRound_other cfg M hcd w
    refine ⟨ph, done, rest, tail, h.of_same hdispatched hbuffer ?_⟩
    have hnot : ¬w.dispatching = some c := by
      rw [hd, some.injEq]
      exact fun h => hcd h.symm
    refine iff_of_false ?_ hnot
    rcases hdispatching with hd' | hd'
    · rw [hd']
      exact hnot
    · rw [hd']
      exact nofun
  | start i | finish i =>
    obtain ⟨j, pool, -, hpool, rfl⟩ := lane_cases hstep rfl (by intro h; cases h)
    simp only [event?, toList_none, append_nil]
    obtain ⟨ph, done, rest, tail, h⟩ := h
    refine ⟨ph, done, rest, tail, h.of_same ?_ rfl Iff.rfl⟩
    rcases hpool with hpool | hpool
    · obtain ⟨t, queue, -, rfl⟩ := Pool.start_cases hpool
      rfl
    · obtain ⟨t, queue, -, rfl⟩ := Pool.finish_cases hpool
      rfl

end Standing

/-! ### Samples -/

/-- Messages whose payloads are any bytes but one. -/
def sampleMessages : Messages Bytes where
  msgType _ := 3
  encodePayload m := m
  decodePayload _ p := if p = [0x7F] then none else some p
  decode_encode m m' h := by
    split at h
    · cases h
    · exact (some.inj h).symm

/-- Handlers for the types 3 and 5, of which 5 is in the serialized domain. -/
def sampleConfig (lanes : ℕ) : ReactorConfig where
  registered t := t == 3 || t == 5
  registered_valid t h := by
    rw [Bool.or_eq_true, beq_iff_eq, beq_iff_eq] at h
    rcases h with rfl | rfl
    · decide
    · decide
  handlerLanes := lanes
  serializedTypes t := t == 5
  serializeLifecycleEvents := false
  connectHandler := true
  disconnectHandler := false
  errorHandler := false

end Fly.Network
