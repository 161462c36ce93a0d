import Fly.Network.ReactorStreams

/-!
# Faulty frames without lanes

Without lanes the handlers run inside the loops over frames and events: `run_once` goes through the events
of one poll, `dispatch_message` through the frames of one buffer.  A frame that does not decode is seen only
by the buffer it leaves untouched, which is then cleared; an exception of a handler leaves both loops.

* `dispatchInline`, `handleInline`, `runOnce` — the two loops;
* `dispatchInline_wire`, `dispatchInline_undecodable` — frames that are handled, and one that does not decode;
* `MarkedEvent` — the events of a batch with the bytes of the faulty frames marked: `raw` as they come,
  `without` as if these frames were absent;
* `EndsItsEvent` — nothing stands behind a frame that does not decode;
* `undecodable_discards_behind` — what such a frame does, and that it does nothing else;
* `faults_reach_others` — bytes behind an undecodable frame are lost, and so are the events behind a handler
  that throws.
-/

namespace Fly.Network

open Fly.Lib Fly.Storage List Option Function Phase Sent TransportEvent ReactorConfig Prod

variable {μ : Type}

/-! ### The loops -/

/-- What the handling of an event has the reactor call. -/
inductive Happening (μ : Type) where
  | message (d : Delivery μ)
  | callback (conn : ConnId) (event : LifecycleEvent)
  deriving DecidableEq

section Inline

variable (cfg : ReactorConfig) (M : Messages μ) (throws : Delivery μ → Bool)

/-- `dispatch_message` without a pool: the messages handled, the buffer, and whether a handler has thrown.
The frame of a handler that throws is off the buffer already. -/
def dispatchInline (conn : ConnId) : ℕ → Bytes → List (Delivery μ) × Bytes × Bool
  | 0, buffer => ([], buffer, false)
  | fuel + 1, buffer =>
    if buffer = [] then ([], [], false)
    else
      match cfg.round buffer with
      | .wait => ([], buffer, false)
      | .skip size => dispatchInline conn fuel (buffer.drop size)
      | .malformed => ([], [], false)
      | .frame type _ =>
        match M.decode type buffer with
        | none => ([], [], false)
        | some (m, rest) =>
          if throws ⟨conn, type, m⟩ then ([], rest, true)
          else
            let r := dispatchInline conn fuel rest
            (⟨conn, type, m⟩ :: r.1, r.2)

/-- Every round but the last takes at least a byte off. -/
def dispatchMessage (conn : ConnId) (buffer : Bytes) : List (Delivery μ) × Bytes × Bool :=
  dispatchInline cfg M throws conn buffer.length buffer

/-- The reactor between two events. -/
abbrev Buffers := ConnId → Option Bytes

def callbackFor (conn : ConnId) (event : LifecycleEvent) : List (Happening μ) :=
  if cfg.hasCallback event then [.callback conn event] else []

def handleInline (buffers : Buffers) : TransportEvent → List (Happening μ) × Buffers × Bool
  | .connect conn => (callbackFor cfg conn .connect, update buffers conn (some []), false)
  | .data conn bytes =>
    let r := dispatchMessage cfg M throws conn ((buffers conn).getD [] ++ bytes)
    (r.1.map .message, update buffers conn (some r.2.1), r.2.2)
  | .disconnect conn => (callbackFor cfg conn .disconnect, update buffers conn none, false)
  | .error conn code => (callbackFor cfg conn (.error code), update buffers conn none, false)

/-- `run_once` on the events of a poll, with the exception caught by `run`: for every event that was taken up,
its connection and what was called. -/
def runOnce : Buffers → List TransportEvent → List (ConnId × List (Happening μ)) × Buffers
  | buffers, [] => ([], buffers)
  | buffers, e :: es =>
    let r := handleInline cfg M throws buffers e
    if r.2.2 then ([(e.conn, r.1)], r.2.1)
    else
      let rest := runOnce r.2.1 es
      ((e.conn, r.1) :: rest.1, rest.2)

end Inline

/-! ### One buffer -/

section Buffer

variable {cfg : ReactorConfig} {M : Messages μ} {throws : Delivery μ → Bool} {c : ConnId} {s : Sent μ}

/-- A frame whose handler would be called, but whose payload is not read. -/
def ReactorConfig.undecodable (cfg : ReactorConfig) (M : Messages μ) (s : Sent μ) : Bool :=
  cfg.registered (s.type M) && (s.delivered M).isNone

/-- A frame that is not at fault is handled or skipped, and the loop goes on behind it. -/
theorem dispatchInline_bytes (hs : s.Fits M) (hgood : cfg.undecodable M s = false)
    (hcalm : ∀ d, throws d = false) (fuel : ℕ) (rest : Bytes) :
    dispatchInline cfg M throws c (fuel + 1) (s.bytes M ++ rest) =
      ((cfg.callFor M c s).toList ++ (dispatchInline cfg M throws c fuel rest).1,
        (dispatchInline cfg M throws c fuel rest).2) := by
  rw [dispatchInline, if_neg (bytes_append_ne_nil s rest), round_bytes hs]
  cases hreg : cfg.registered (s.type M) with
  | false =>
    rw [if_neg (by decide), callFor, if_neg (by rw [hreg]; decide)]
    dsimp only
    rw [drop_left]
    rfl
  | true =>
    obtain ⟨m, hm⟩ : ∃ m, s.delivered M = some m := by
      rw [undecodable, hreg, Bool.true_and] at hgood
      cases hm : s.delivered M with
      | none =>
        rw [hm] at hgood
        cases hgood
      | some m => exact ⟨m, rfl⟩
    have hdecode := Sent.decode_bytes hs (cfg.registered_valid _ hreg) rest
    rw [hm, map_some] at hdecode
    rw [if_pos rfl, callFor, if_pos hreg, hm]
    dsimp only
    rw [hdecode]
    dsimp only
    rw [hcalm, if_neg (by decide)]
    rfl

variable {good rest : List (Sent μ)} {fuel : ℕ} {tail : Bytes}

/-- **Frames that are not at fault**, and then whatever stands behind them. -/
theorem dispatchInline_wire (hfits : ∀ s ∈ good, s.Fits M)
    (hgood : ∀ s ∈ good, cfg.undecodable M s = false) (hcalm : ∀ d, throws d = false) {rest : Bytes}
    (hfuel : (wire M good ++ rest).length ≤ fuel) :
    ∃ fuel', rest.length ≤ fuel' ∧ dispatchInline cfg M throws c fuel (wire M good ++ rest) =
      (cfg.expected M c good ++ (dispatchInline cfg M throws c fuel' rest).1,
        (dispatchInline cfg M throws c fuel' rest).2) := by
  induction good generalizing fuel with
  | nil => exact ⟨fuel, hfuel, rfl⟩
  | cons s good ih =>
    rw [wire_cons, append_assoc, length_append, Sent.length_bytes] at hfuel
    obtain ⟨fuel, rfl⟩ : ∃ fuel', fuel = fuel' + 1 := ⟨fuel - 1, by omega⟩
    obtain ⟨fuel', hle, heq⟩ := ih (fun t ht => hfits t (mem_cons_of_mem s ht))
      (fun t ht => hgood t (mem_cons_of_mem s ht))
      (show (wire M good ++ rest).length ≤ fuel by omega)
    refine ⟨fuel', hle, ?_⟩
    rw [wire_cons, append_assoc, dispatchInline_bytes (hfits s mem_cons_self)
      (hgood s mem_cons_self) hcalm, heq]
    have hexpected : cfg.expected M c (s :: good) = (cfg.callFor M c s).toList ++ cfg.expected M c good := by
      rw [expected, expected, filterMap_cons]
      cases cfg.callFor M c s <;> rfl
    rw [hexpected, append_assoc]

/-- Less than a whole frame stays in the buffer. -/
theorem dispatchInline_short (hfits : ∀ s ∈ rest, s.Fits M)
    (hpart : tail <+: wire M rest) (hshort : Short M tail rest) (fuel : ℕ) :
    dispatchInline cfg M throws c fuel tail = ([], tail, false) := by
  cases fuel with
  | zero => rfl
  | succ fuel =>
    rw [dispatchInline]
    split
    · rename_i hnil
      rw [hnil]
    rename_i hne
    cases rest with
    | nil => exact absurd (prefix_nil.mp hpart) hne
    | cons s rest => rw [hshort.round (hfits s mem_cons_self) hpart]

/-- **A frame that does not decode** empties the buffer. -/
theorem dispatchInline_undecodable (hs : s.Fits M) (hbad : cfg.undecodable M s = true)
    (rest : Bytes) (hfuel : (s.bytes M ++ rest).length ≤ fuel) :
    dispatchInline cfg M throws c fuel (s.bytes M ++ rest) = ([], [], false) := by
  rw [undecodable, Bool.and_eq_true, isNone_iff_eq_none] at hbad
  obtain ⟨fuel, rfl⟩ : ∃ fuel', fuel = fuel' + 1 := by
    rw [length_append, Sent.length_bytes] at hfuel
    exact ⟨fuel - 1, by omega⟩
  have hdecode := Sent.decode_bytes hs (cfg.registered_valid _ hbad.1) rest
  rw [hbad.2, map_none] at hdecode
  rw [dispatchInline, if_neg (bytes_append_ne_nil s rest), round_bytes hs, if_pos hbad.1]
  dsimp only
  rw [hdecode]

/-- The buffer of one event: the frames up to the first that does not decode are handled, and what stands
behind that one is discarded with it. -/
theorem dispatchMessage_undecodable {bad : Sent μ} (hfits : ∀ s ∈ good, s.Fits M)
    (hgood : ∀ s ∈ good, cfg.undecodable M s = false) (hcalm : ∀ d, throws d = false) (hbadFits : bad.Fits M)
    (hbad : cfg.undecodable M bad = true) (behind : Bytes) :
    dispatchMessage cfg M throws c (wire M good ++ (bad.bytes M ++ behind)) =
      (cfg.expected M c good, [], false) := by
  obtain ⟨fuel', hle, heq⟩ := dispatchInline_wire (c := c) hfits hgood hcalm
    (le_refl (wire M good ++ (bad.bytes M ++ behind)).length)
  rw [dispatchMessage, heq, dispatchInline_undecodable hbadFits hbad behind hle, append_nil]

/-- The buffer of an event without a frame at fault. -/
theorem dispatchMessage_wire (hfits : ∀ s ∈ good ++ rest, s.Fits M)
    (hgood : ∀ s ∈ good, cfg.undecodable M s = false) (hcalm : ∀ d, throws d = false)
    (hpart : tail <+: wire M rest) (hshort : Short M tail rest) :
    dispatchMessage cfg M throws c (wire M good ++ tail) = (cfg.expected M c good, tail, false) := by
  obtain ⟨fuel', -, heq⟩ := dispatchInline_wire (c := c)
    (fun s hs => hfits s (mem_append_left _ hs)) hgood hcalm
    (le_refl (wire M good ++ tail).length)
  rw [dispatchMessage, heq, dispatchInline_short (fun s hs => hfits s (mem_append_right _ hs)) hpart
    hshort, append_nil]

end Buffer

/-! ### A batch, and the batch without the faulty frames -/

/-- Bytes of which some belong to a faulty frame. -/
abbrev MarkedBytes := List (UInt8 × Bool)

namespace MarkedBytes

variable (bs : MarkedBytes)

def raw : Bytes := bs.map fst

/-- The bytes that are there if the faulty frames are absent. -/
def without : Bytes := (bs.filter fun b => !b.2).map fst

theorem raw_append (as bs : MarkedBytes) : raw (as ++ bs) = raw as ++ raw bs := map_append

theorem without_append (as bs : MarkedBytes) : without (as ++ bs) = without as ++ without bs := by
  rw [without, filter_append, map_append]
  rfl

theorem length_raw : (raw bs).length = bs.length := length_map _

theorem length_without_le : (without bs).length ≤ bs.length := by
  rw [without, length_map]
  exact length_filter_le _ _

end MarkedBytes

open MarkedBytes

def TransportEvent.ofLifecycle (conn : ConnId) : LifecycleEvent → TransportEvent
  | .connect => .connect conn
  | .disconnect => .disconnect conn
  | .error code => .error conn code

inductive MarkedEvent where
  | data (conn : ConnId) (bytes : MarkedBytes)
  | lifecycle (conn : ConnId) (event : LifecycleEvent)

namespace MarkedEvent

def conn : MarkedEvent → ConnId
  | data conn _ => conn
  | lifecycle conn _ => conn

def raw : MarkedEvent → TransportEvent
  | data conn bytes => .data conn bytes.raw
  | lifecycle conn event => .ofLifecycle conn event

/-- The event as it would come if the faulty frames were absent. -/
def without : MarkedEvent → TransportEvent
  | data conn bytes => .data conn bytes.without
  | lifecycle conn event => .ofLifecycle conn event

def dataOn (c : ConnId) : MarkedEvent → Option MarkedBytes
  | data conn bytes => if conn = c then some bytes else none
  | lifecycle _ _ => none

theorem conn_raw (e : MarkedEvent) : e.raw.conn = e.conn := by
  cases e with
  | data conn bytes => rfl
  | lifecycle conn event => cases event <;> rfl

theorem conn_without (e : MarkedEvent) : e.without.conn = e.conn := by
  cases e with
  | data conn bytes => rfl
  | lifecycle conn event => cases event <;> rfl

theorem dataOn_of_ne {e : MarkedEvent} {c : ConnId} (h : e.conn ≠ c) : e.dataOn c = none := by
  cases e with
  | data conn bytes => exact if_neg h
  | lifecycle conn event => rfl

end MarkedEvent

def pieces (c : ConnId) (batch : List MarkedEvent) : List MarkedBytes := batch.filterMap (·.dataOn c)

section Marked

variable (cfg : ReactorConfig) (M : Messages μ) (frames : List (Sent μ))

/-- The stream of a connection with the frames marked that do not decode. -/
def markedWire : MarkedBytes :=
  frames.flatMap fun s => (s.bytes M).map fun b => (b, cfg.undecodable M s)

/-- Nothing stands behind a frame that does not decode in the event that completes it: `inBuffer` bytes are
there already, and `ps` are the data events to come. -/
def EndsItsEvent (inBuffer : ℕ) (ps : List MarkedBytes) : Prop :=
  ∀ pre bad post, frames = pre ++ bad :: post → cfg.undecodable M bad = true →
    (wire M (pre ++ [bad])).length ≤ inBuffer + ps.flatten.length →
    ∃ k, (wire M (pre ++ [bad])).length = inBuffer + (ps.take k).flatten.length

/-- What a batch brings for a connection in phase `ph` with `tail` in its buffer: its stream goes on, and
nothing stands behind a frame that does not decode. -/
structure Incoming (c : ConnId) (frames : List (Sent μ)) (ph : Phase) (tail : MarkedBytes)
    (batch : List MarkedEvent) : Prop where
  fits : ∀ s ∈ frames, s.Fits M
  ordered : (run Phase.next ph ((batch.map MarkedEvent.raw).filter fun e => e.conn == c)).isSome
  fresh_empty : ph = .fresh → tail = []
  stream : tail ++ (pieces c batch).flatten <+: markedWire cfg M frames
  short : Short M tail.raw frames
  ends : EndsItsEvent cfg M frames tail.length (pieces c batch)

variable {cfg M} {c : ConnId}

theorem markedWire_cons (s : Sent μ) (frames : List (Sent μ)) : markedWire cfg M (s :: frames) =
      (s.bytes M).map (fun b => (b, cfg.undecodable M s)) ++ markedWire cfg M frames := flatMap_cons

theorem markedWire_append (front back : List (Sent μ)) :
    markedWire cfg M (front ++ back) = markedWire cfg M front ++ markedWire cfg M back := flatMap_append

theorem raw_marked (bytes : Bytes) (mark : Bool) :
    MarkedBytes.raw (bytes.map fun b => (b, mark)) = bytes := by
  rw [MarkedBytes.raw, List.map_map]
  exact List.map_id bytes

theorem without_marked (bytes : Bytes) (mark : Bool) :
    without (bytes.map fun b => (b, mark)) = if mark then [] else bytes := by
  rw [without, List.filter_map, List.map_map]
  cases mark with
  | true | false => simp [comp_def]

theorem raw_markedWire (cfg : ReactorConfig) (frames : List (Sent μ)) :
    (markedWire cfg M frames).raw = wire M frames := by
  induction frames with
  | nil => rfl
  | cons s frames ih => rw [markedWire_cons, raw_append, raw_marked, ih, wire_cons]

/-- Without the marked bytes the stream is that of the other frames. -/
theorem without_markedWire :
    (markedWire cfg M frames).without = wire M (frames.filter fun s => !cfg.undecodable M s) := by
  induction frames with
  | nil => rfl
  | cons s frames ih =>
    rw [markedWire_cons, without_append, without_marked, ih]
    cases hs : cfg.undecodable M s with
    | true =>
      rw [if_pos rfl, filter_cons_of_neg (by rw [hs]; decide)]
      rfl
    | false => rw [if_neg (by decide), filter_cons_of_pos (by rw [hs]; rfl), wire_cons]

/-- A front part of a stream: whole frames, and less than one. -/
theorem exists_whole {frames : List (Sent μ)} {bs : MarkedBytes} (h : bs <+: markedWire cfg M frames) :
    ∃ now rest tail, frames = now ++ rest ∧ bs = markedWire cfg M now ++ tail ∧
      tail <+: markedWire cfg M rest ∧ Short M tail.raw rest := by
  induction frames generalizing bs with
  | nil =>
    exact ⟨[], [], bs, rfl, rfl, h, nofun⟩
  | cons s frames ih =>
    by_cases hlong : (s.bytes M).length ≤ bs.length
    · obtain ⟨bs', rfl⟩ : (s.bytes M).map (fun b => (b, cfg.undecodable M s)) <+: bs :=
        prefix_of_prefix_length_le (prefix_append _ _) h (by rw [length_map]; exact hlong)
      obtain ⟨now, rest, tail, rfl, rfl, htail, hshort⟩ := ih ((prefix_append_right_inj _).mp h)
      refine ⟨s :: now, rest, tail, rfl, ?_, htail, hshort⟩
      rw [markedWire_cons, append_assoc]
    · refine ⟨[], s :: frames, bs, rfl, rfl, h, fun t ht => ?_⟩
      cases ht
      rw [length_raw]
      omega

/-- The frames that are left are the same without the faulty ones, as far as the calls go. -/
theorem expected_filter :
    cfg.expected M c (frames.filter fun s => !cfg.undecodable M s) = cfg.expected M c frames := by
  rw [expected, expected, filterMap_filter]
  refine filterMap_congr fun s _ => ?_
  cases hs : cfg.undecodable M s with
  | false => rfl
  | true =>
    rw [undecodable, Bool.and_eq_true, isNone_iff_eq_none] at hs
    rw [callFor, if_pos hs.1, hs.2]
    rfl

/-- The part of a frame in the buffer is less than a frame without the faulty ones, too. -/
theorem short_without {rest : List (Sent μ)} {tail : MarkedBytes} (hpart : tail <+: markedWire cfg M rest)
    (hshort : Short M tail.raw rest) :
    tail.without <+: wire M (rest.filter fun s => !cfg.undecodable M s) ∧
      Short M tail.without (rest.filter fun s => !cfg.undecodable M s) := by
  refine ⟨?_, ?_⟩
  · rw [← without_markedWire]
    exact (hpart.filter _).map _
  · cases rest with
    | nil => exact nofun
    | cons s rest =>
      have hlt : tail.length < (s.bytes M).length := by
        have hs := hshort s rfl
        rwa [length_raw] at hs
      cases hs : cfg.undecodable M s with
      | false =>
        rw [filter_cons_of_pos (by rw [hs]; rfl)]
        intro t ht
        cases ht
        have hle := length_without_le tail
        omega
      | true =>
        -- all that has arrived belongs to the faulty frame
        rw [markedWire_cons, hs] at hpart
        have hfront : tail <+: (s.bytes M).map fun b => (b, true) :=
          prefix_of_prefix_length_le hpart (prefix_append _ _) (by rw [length_map]; exact le_of_lt hlt)
        have hnil : tail.without = [] := by
          have hall := (hfront.filter fun b => !b.2).map fst
          rw [show ((((s.bytes M).map fun b => (b, true)).filter fun b => !b.2).map fst) = [] from
            without_marked _ true] at hall
          exact prefix_nil.mp hall
        rw [hnil]
        intro t _
        rw [Sent.length_bytes, length_nil]
        omega

end Marked

/-! ### One data event -/

section Piece

variable {cfg : ReactorConfig} {M : Messages μ} {throws : Delivery μ → Bool} {c : ConnId}
  {tail : Bytes} {frames : List (Sent μ)}

/-- What is in the buffer does not reach the end of any frame to come. -/
theorem Short.lt_wire {pre post : List (Sent μ)} {s : Sent μ} (h : Short M tail frames)
    (hsplit : frames = pre ++ s :: post) : tail.length < (wire M (pre ++ [s])).length := by
  subst hsplit
  cases pre with
  | nil =>
    have hlt := h s rfl
    rw [nil_append, wire_cons, length_append]
    omega
  | cons t pre =>
    have hlt := h t rfl
    rw [cons_append, wire_cons, length_append]
    omega

variable {ps : List MarkedBytes} {d : MarkedBytes} {rest : List (Sent μ)} {inBuffer : ℕ}

/-- Where the events go on, nothing stands behind the faulty frames to come. -/
theorem EndsItsEvent.goesOn {now : List (Sent μ)} {inBuffer' : ℕ}
    (h : EndsItsEvent cfg M (now ++ rest) inBuffer (d :: ps))
    (hlength : (wire M now).length + inBuffer' = inBuffer + d.length) (htail : tail.length = inBuffer')
    (hshort : Short M tail rest) : EndsItsEvent cfg M rest inBuffer' ps := by
  intro pre bad post hsplit hbad hle
  have hlt := hshort.lt_wire hsplit
  have hwire : (wire M (now ++ pre ++ [bad])).length =
      (wire M now).length + (wire M (pre ++ [bad])).length := by
    rw [append_assoc, wire_append, length_append]
  obtain ⟨k, hk⟩ := h (now ++ pre) bad post (by rw [hsplit, append_assoc]) hbad (by
    rw [hwire, flatten_cons, length_append]
    omega)
  cases k with
  | zero =>
    rw [take_zero, flatten_nil, length_nil] at hk
    omega
  | succ k =>
    rw [take_succ_cons, flatten_cons, length_append] at hk
    exact ⟨k, by omega⟩

/-- The first frame of an event that does not decode is its last. -/
theorem EndsItsEvent.nothing_behind {good more : List (Sent μ)} {bad : Sent μ} {tailLength : ℕ}
    (h : EndsItsEvent cfg M (good ++ bad :: (more ++ rest)) inBuffer (d :: ps))
    (hbad : cfg.undecodable M bad = true) (htail : tail.length = inBuffer)
    (hshort : Short M tail (good ++ bad :: (more ++ rest)))
    (hlength : (wire M (good ++ bad :: more)).length + tailLength = inBuffer + d.length) :
    more = [] ∧ tailLength = 0 := by
  have hlt := hshort.lt_wire rfl
  have hwire : (wire M (good ++ bad :: more)).length =
      (wire M (good ++ [bad])).length + (wire M more).length := by
    rw [← length_append, ← wire_append, append_assoc]
    rfl
  obtain ⟨k, hk⟩ := h good bad (more ++ rest) rfl hbad (by
    rw [flatten_cons, length_append]
    omega)
  cases k with
  | zero =>
    rw [take_zero, flatten_nil, length_nil] at hk
    omega
  | succ k =>
    rw [take_succ_cons, flatten_cons, length_append] at hk
    refine ⟨?_, by omega⟩
    cases more with
    | nil => rfl
    | cons s more =>
      rw [wire_cons, length_append, Sent.length_bytes] at hwire
      omega

/-- **One data event**, with and without the faulty frames: the same calls, and what is left of the buffer is
the same but for the bytes of a faulty frame. -/
theorem dispatch_piece {tail : MarkedBytes} (hcalm : ∀ x, throws x = false) (hfits : ∀ s ∈ frames, s.Fits M)
    (hstream : tail ++ d <+: markedWire cfg M frames) (hshort : Short M tail.raw frames)
    (hends : EndsItsEvent cfg M frames tail.length (d :: ps)) :
    ∃ now rest tail', frames = now ++ rest ∧ tail ++ d = markedWire cfg M now ++ tail' ∧
      Short M tail'.raw rest ∧ EndsItsEvent cfg M rest tail'.length ps ∧
      dispatchMessage cfg M throws c (tail.raw ++ d.raw) = (cfg.expected M c now, tail'.raw, false) ∧
      dispatchMessage cfg M throws c (tail.without ++ d.without) =
        (cfg.expected M c now, tail'.without, false) := by
  obtain ⟨now, rest, tail', rfl, hbytes, hpart, hshort'⟩ := exists_whole hstream
  have hlength : (wire M now).length + tail'.length = tail.length + d.length := by
    rw [← raw_markedWire cfg, length_raw, ← length_append, ← hbytes, length_append]
  refine ⟨now, rest, tail', rfl, hbytes, hshort',
    hends.goesOn hlength (length_raw tail') hshort', ?_, ?_⟩
  · rw [← raw_append, hbytes, raw_append, raw_markedWire]
    cases hfind : now.find? (cfg.undecodable M) with
    | none =>
      have hgood : ∀ s ∈ now, cfg.undecodable M s = false := by
        intro s hs
        simpa using List.find?_eq_none.mp hfind s hs
      refine dispatchMessage_wire hfits hgood hcalm ?_ hshort'
      rw [← raw_markedWire cfg]
      exact hpart.map _
    | some bad =>
      obtain ⟨hbad, good, more, rfl, hgood⟩ := List.find?_eq_some_iff_append.mp hfind
      rw [append_assoc, cons_append] at hends hshort
      obtain ⟨rfl, htail⟩ := hends.nothing_behind hbad (length_raw tail) hshort hlength
      obtain rfl : tail' = [] := eq_nil_of_length_eq_zero htail
      have hnone : cfg.callFor M c bad = none := by
        rw [undecodable, Bool.and_eq_true, isNone_iff_eq_none] at hbad
        rw [callFor, if_pos hbad.1, hbad.2]
        rfl
      have hcalls : cfg.expected M c (good ++ [bad]) = cfg.expected M c good := by
        rw [expected, filterMap_append, filterMap_cons_none hnone, filterMap_nil, append_nil]
        rfl
      have hall : dispatchMessage cfg M throws c (wire M good ++ (bad.bytes M ++ [])) =
          (cfg.expected M c good, [], false) := dispatchMessage_undecodable
        (fun s hs => hfits s (by simp [hs])) (fun s hs => by simpa using hgood s hs) hcalm
        (hfits bad (by simp)) hbad []
      rw [hcalls, wire_append, wire_cons, append_assoc, append_assoc]
      exact hall
  · obtain ⟨hpart', hshort''⟩ := short_without hpart hshort'
    rw [← without_append, hbytes, without_append, without_markedWire,
      ← expected_filter now]
    refine dispatchMessage_wire ?_ (fun s hs => ?_) hcalm hpart' hshort''
    · intro s hs
      rw [← filter_append] at hs
      exact hfits s (mem_of_mem_filter hs)
    · simpa using (mem_filter.mp hs).2

end Piece

/-! ### A batch -/

section Batch

variable {cfg : ReactorConfig} {M : Messages μ} {throws : Delivery μ → Bool} {c : ConnId}

section

variable (hcalm : ∀ d, throws d = false) (buffers : Buffers)
include hcalm

theorem threw_dispatchInline (fuel : ℕ) (buffer : Bytes) :
    (dispatchInline cfg M throws c fuel buffer).2.2 = false := by
  induction fuel generalizing buffer with
  | zero => rfl
  | succ fuel ih =>
    rw [dispatchInline]
    split
    · rfl
    split
    · rfl
    · exact ih _
    · rfl
    · split
      · rfl
      · rw [hcalm, if_neg (by decide)]
        exact ih _

theorem threw_handleInline (e : TransportEvent) : (handleInline cfg M throws buffers e).2.2 = false := by
  cases e with
  | data conn bytes => exact threw_dispatchInline hcalm _ _
  | _ => rfl

/-- Where no handler throws the loop over the events goes on. -/
theorem runOnce_cons (e : TransportEvent) (es : List TransportEvent) :
    runOnce cfg M throws buffers (e :: es) = ((e.conn, (handleInline cfg M throws buffers e).1) ::
          (runOnce cfg M throws (handleInline cfg M throws buffers e).2.1 es).1,
        (runOnce cfg M throws (handleInline cfg M throws buffers e).2.1 es).2) := by
  rw [runOnce]
  rw [threw_handleInline hcalm, if_neg (by decide)]

theorem runOnce_append (es fs : List TransportEvent) :
    runOnce cfg M throws buffers (es ++ fs) = ((runOnce cfg M throws buffers es).1 ++
          (runOnce cfg M throws (runOnce cfg M throws buffers es).2 fs).1,
        (runOnce cfg M throws (runOnce cfg M throws buffers es).2 fs).2) := by
  induction es generalizing buffers with
  | nil => rfl
  | cons e es ih => rw [cons_append, runOnce_cons hcalm, ih, runOnce_cons hcalm, cons_append]

/-- Every event of the batch is taken up. -/
theorem conns_runOnce (es : List TransportEvent) :
    (runOnce cfg M throws buffers es).1.map fst = es.map conn := by
  induction es generalizing buffers with
  | nil => rfl
  | cons e es ih => rw [runOnce_cons hcalm, map_cons, ih, map_cons]

end

variable {e : TransportEvent} {batch : List MarkedEvent} {tail : MarkedBytes} {ph : Phase}
  {frames : List (Sent μ)} {buffers buffers' : Buffers}

/-- An event of one connection leaves the buffers of the others. -/
theorem handleInline_other (h : e.conn ≠ c) (buffers : Buffers) :
    (handleInline cfg M throws buffers e).2.1 c = buffers c := by
  cases e with
  | connect conn | data conn bytes => exact update_of_ne (fun hc => h hc.symm) _ _
  | disconnect conn | error conn code => exact update_of_ne (fun hc => h hc.symm) _ _

/-- What the reactor has called on a connection, event by event. -/
def handledOn (c : ConnId) (r : List (ConnId × List (Happening μ)) × Buffers) :
    List (ConnId × List (Happening μ)) := r.1.filter fun x => x.1 == c

theorem handledOn_cons (hcalm : ∀ d, throws d = false) (buffers : Buffers) (es : List TransportEvent) :
    handledOn c (runOnce cfg M throws buffers (e :: es)) =
      (if e.conn = c then [(c, (handleInline cfg M throws buffers e).1)] else []) ++
        handledOn c (runOnce cfg M throws (handleInline cfg M throws buffers e).2.1 es) := by
  rw [handledOn, runOnce_cons hcalm, filter_cons]
  split <;> simp_all [handledOn]

/-- After the end of a connection there is nothing for it. -/
theorem pieces_of_closed
    (h : (run next .closed ((batch.map MarkedEvent.raw).filter fun e => e.conn == c)).isSome) :
    pieces c batch = [] := by
  induction batch with
  | nil => rfl
  | cons e batch ih =>
    rw [map_cons] at h
    by_cases hown : e.conn = c
    · rw [filter_cons_of_pos (by simp [e.conn_raw, hown]), run_cons] at h
      have hnone : next .closed e.raw = none := by cases e.raw <;> rfl
      cases h
    · rw [filter_cons_of_neg (by simp [e.conn_raw, hown])] at h
      rw [pieces, filterMap_cons_none (MarkedEvent.dataOn_of_ne hown)]
      exact ih h

/-- An event that is not data for the connection leaves what is to come for it. -/
theorem Incoming.skip {e : MarkedEvent} {ph' : Phase}
    (h : Incoming cfg M c frames ph tail (e :: batch)) (hdata : e.dataOn c = none)
    (hordered : (run next ph' ((batch.map MarkedEvent.raw).filter fun e => e.conn == c)).isSome)
    (hfresh : ph' = .fresh → tail = []) : Incoming cfg M c frames ph' tail batch := by
  have hpieces : pieces c (e :: batch) = pieces c batch := filterMap_cons_none hdata
  have hstream := h.stream
  have hends := h.ends
  rw [hpieces] at hstream hends
  exact ⟨h.fits, hordered, hfresh, hstream, h.short, hends⟩

/-- An event of the connection is in order. -/
theorem Incoming.next {e : MarkedEvent} (h : Incoming cfg M c frames ph tail (e :: batch))
    (hown : e.conn = c) : ∃ ph', ph.next e.raw = some ph' ∧
      (run next ph' ((batch.map MarkedEvent.raw).filter fun e => e.conn == c)).isSome := by
  have hordered := h.ordered
  rw [map_cons, filter_cons_of_pos (by simp [e.conn_raw, hown]), run_cons] at hordered
  cases hnext : ph.next e.raw with
  | none =>
    rw [hnext] at hordered
    cases hordered
  | some ph' =>
    rw [hnext] at hordered
    exact ⟨ph', rfl, hordered⟩

/-- The opening or the end of a connection, seen from its stream. -/
theorem Incoming.lifecycle {event : LifecycleEvent}
    (h : Incoming cfg M c frames ph tail (.lifecycle c event :: batch)) :
    ∃ frames' ph', Incoming cfg M c frames' ph' [] batch := by
  obtain ⟨ph', hnext, hordered⟩ := h.next rfl
  cases event with
  | connect =>
    -- a connection is opened before anything has come
    have hfresh : ph = .fresh := by
      cases ph with
      | fresh => rfl
      | opened => cases hnext
      | closed => cases hnext
    have htail := h.fresh_empty hfresh
    subst htail
    exact ⟨frames, ph', h.skip rfl hordered fun _ => rfl⟩
  | disconnect | error code =>
    have hclosed : ph' = .closed := by
      cases ph <;> cases hnext
      · rfl
      · rfl
    subst hclosed
    refine ⟨[], .closed, fun s hs => absurd hs not_mem_nil, hordered, nofun, ?_,
      nofun, fun pre bad post hsplit => absurd hsplit (by simp)⟩
    rw [pieces_of_closed hordered]
    exact prefix_rfl

/-- **One event**, with and without the faulty frames: the same calls, and the stream goes on. -/
theorem handleInline_without (hcalm : ∀ d, throws d = false) {e : MarkedEvent}
    (hown : e.conn = c)
    (hin : Incoming cfg M c frames ph tail (e :: batch)) (hraw : (buffers c).getD [] = tail.raw)
    (hwithout : (buffers' c).getD [] = tail.without) :
    (handleInline cfg M throws buffers e.raw).1 = (handleInline cfg M throws buffers' e.without).1 ∧
      ∃ frames' ph' tail', Incoming cfg M c frames' ph' tail' batch ∧
        ((handleInline cfg M throws buffers e.raw).2.1 c).getD [] = tail'.raw ∧
        ((handleInline cfg M throws buffers' e.without).2.1 c).getD [] = tail'.without := by
  subst hown
  cases e with
  | lifecycle conn event =>
    obtain ⟨frames', ph', hin'⟩ := hin.lifecycle
    have hcall : ∀ b : Buffers, (handleInline cfg M throws b (.ofLifecycle conn event)).1 =
        callbackFor cfg conn event := by
      intro b
      cases event <;> rfl
    have hempty : ∀ b : Buffers,
        ((handleInline cfg M throws b (.ofLifecycle conn event)).2.1 conn).getD [] = [] := by
      intro b
      cases event <;> simp [handleInline, ofLifecycle]
    exact ⟨(hcall buffers).trans (hcall buffers').symm, frames', ph', [], hin', hempty buffers,
      hempty buffers'⟩
  | data conn bytes =>
    change (buffers conn).getD [] = tail.raw at hraw
    change (buffers' conn).getD [] = tail.without at hwithout
    have hpieces : pieces conn (.data conn bytes :: batch) = bytes :: pieces conn batch :=
      filterMap_cons_some (if_pos rfl)
    have hstream := hin.stream
    have hends := hin.ends
    rw [show (MarkedEvent.data conn bytes).conn = conn from rfl, hpieces] at hstream hends
    rw [flatten_cons, ← append_assoc] at hstream
    obtain ⟨now, rest, tail', rfl, hbytes, hshort', hends', hreal, hideal⟩ :=
      dispatch_piece (c := conn) hcalm hin.fits ((prefix_append _ _).trans hstream) hin.short hends
    obtain ⟨ph', hnext, hordered⟩ := hin.next rfl
    have hopened : ph' = .opened := by
      cases ph <;> cases hnext
      · rfl
      · rfl
    refine ⟨?_, rest, ph', tail', ⟨fun s hs => hin.fits s (mem_append_right _ hs), hordered, ?_, ?_,
      hshort', hends'⟩, ?_, ?_⟩
    · simp only [MarkedEvent.raw, MarkedEvent.without, handleInline, hraw, hwithout, hreal, hideal]
    · intro hfresh
      rw [hopened] at hfresh
      cases hfresh
    · rw [hbytes, markedWire_append, append_assoc] at hstream
      exact (prefix_append_right_inj _).mp hstream
    · simp only [MarkedEvent.conn, MarkedEvent.raw, handleInline, hraw, hreal, update_self, getD_some]
    · simp only [MarkedEvent.conn, MarkedEvent.without, handleInline, hwithout, hideal, update_self,
        getD_some]

/-- The batch with and without the faulty frames, on one connection. -/
theorem handledOn_without (hcalm : ∀ d, throws d = false)
    (hin : Incoming cfg M c frames ph tail batch) (hraw : (buffers c).getD [] = tail.raw)
    (hwithout : (buffers' c).getD [] = tail.without) :
    handledOn c (runOnce cfg M throws buffers (batch.map MarkedEvent.raw)) =
        handledOn c (runOnce cfg M throws buffers' (batch.map MarkedEvent.without)) ∧
      ∃ tail' : MarkedBytes,
        ((runOnce cfg M throws buffers (batch.map MarkedEvent.raw)).2 c).getD [] = tail'.raw ∧
        ((runOnce cfg M throws buffers' (batch.map MarkedEvent.without)).2 c).getD [] = tail'.without := by
  induction batch generalizing frames ph tail buffers buffers' with
  | nil => exact ⟨rfl, tail, hraw, hwithout⟩
  | cons e batch ih =>
    have hlast : ∀ b e' es, (runOnce cfg M throws b (e' :: es)).2 =
        (runOnce cfg M throws (handleInline cfg M throws b e').2.1 es).2 := by
      intro b e' es
      rw [runOnce_cons hcalm]
    rw [map_cons, map_cons, hlast, hlast]
    by_cases hown : e.conn = c
    · obtain ⟨hcalls, frames', ph', tail', hin', hraw', hwithout'⟩ :=
        handleInline_without hcalm hown hin hraw hwithout
      obtain ⟨hrest, hbuffers⟩ := ih hin' hraw' hwithout'
      rw [handledOn_cons hcalm, handledOn_cons hcalm, if_pos (e.conn_raw.trans hown),
        if_pos (e.conn_without.trans hown), hcalls, hrest]
      exact ⟨rfl, hbuffers⟩
    · have hraw' := e.conn_raw.trans_ne hown
      have hwithout' := e.conn_without.trans_ne hown
      have hordered := hin.ordered
      rw [map_cons, filter_cons_of_neg (by simp [hraw'])] at hordered
      rw [handledOn_cons hcalm, handledOn_cons hcalm, if_neg hraw', if_neg hwithout']
      refine ih (hin.skip (MarkedEvent.dataOn_of_ne hown) hordered hin.fresh_empty) ?_ ?_
      · rw [handleInline_other hraw']
        exact hraw
      · rw [handleInline_other hwithout']
        exact hwithout

/-- **What a frame that does not decode does, and that it does nothing else.**  No handler throwing, every
event of a batch is taken up; on a connection on which nothing stands behind such frames in the events that
complete them, everything is handled exactly as if they were absent, whatever the other connections receive;
and where something stands behind such a frame, the frames before it are handled and the rest of the buffer
is discarded with it. -/
theorem undecodable_discards_behind (hcalm : ∀ d, throws d = false) (tails : ConnId → Option MarkedBytes)
    (batch : List MarkedEvent) :
    (runOnce cfg M throws (fun c => (tails c).map raw) (batch.map MarkedEvent.raw)).1.map fst =
        batch.map MarkedEvent.conn ∧
      (∀ c frames ph, Incoming cfg M c frames ph ((tails c).getD []) batch →
        handledOn c (runOnce cfg M throws (fun c => (tails c).map raw) (batch.map MarkedEvent.raw)) =
          handledOn c (runOnce cfg M throws (fun c => (tails c).map without)
            (batch.map MarkedEvent.without)) ∧
        ∃ tail' : MarkedBytes, ((runOnce cfg M throws (fun c => (tails c).map raw)
            (batch.map MarkedEvent.raw)).2 c).getD [] = tail'.raw ∧
          ((runOnce cfg M throws (fun c => (tails c).map without)
            (batch.map MarkedEvent.without)).2 c).getD [] = tail'.without) ∧
      ∀ pre c bytes post good bad behind, batch.map MarkedEvent.raw = pre ++ .data c bytes :: post →
        (∀ s ∈ good, s.Fits M ∧ cfg.undecodable M s = false) → bad.Fits M → cfg.undecodable M bad = true →
        ((runOnce cfg M throws (fun c => (tails c).map raw) pre).2 c).getD [] ++ bytes =
          wire M good ++ (bad.bytes M ++ behind) →
        (runOnce cfg M throws (fun c => (tails c).map raw)
            (batch.map MarkedEvent.raw)).1[pre.length]? =
          some (c, (cfg.expected M c good).map Happening.message) ∧
        (runOnce cfg M throws (fun c => (tails c).map raw) (pre ++ [.data c bytes])).2 c = some [] := by
  refine ⟨?_, fun c frames ph hin => ?_, ?_⟩
  · rw [conns_runOnce hcalm, List.map_map]
    exact map_congr_left fun e _ => e.conn_raw
  · refine handledOn_without hcalm hin ?_ ?_
    all_goals cases tails c <;> rfl
  · intro pre c bytes post good bad behind hsplit hgood hbadFits hbad hbuffer
    have hevent : dispatchMessage cfg M throws c (wire M good ++ (bad.bytes M ++ behind)) =
        (cfg.expected M c good, [], false) := dispatchMessage_undecodable (fun s hs => (hgood s hs).1)
      (fun s hs => (hgood s hs).2) hcalm hbadFits hbad behind
    rw [← hbuffer] at hevent
    have hlength : (runOnce cfg M throws (fun c => (tails c).map raw) pre).1.length = pre.length := by
      rw [← length_map fst, conns_runOnce hcalm, length_map]
    refine ⟨?_, ?_⟩
    · rw [hsplit, runOnce_append hcalm, getElem?_append_right (le_of_eq hlength), hlength, Nat.sub_self,
        runOnce_cons hcalm]
      show some (c, (dispatchMessage cfg M throws c _).1.map Happening.message) = _
      rw [hevent]
    · rw [runOnce_append hcalm, runOnce_cons hcalm]
      show (handleInline cfg M throws _ (.data c bytes)).2.1 c = some []
      rw [handleInline]
      dsimp only
      rw [hevent, update_self]

/-- The batch of a connection whose stream ends with a frame that does not decode. -/
def lastUndecodable : List MarkedEvent :=
  [.lifecycle 1 .connect,
    .data 1 ((markedWire (sampleConfig 0) sampleMessages [.message [1], .raw 3 [0x7F]]).take 15),
    .data 1 ((markedWire (sampleConfig 0) sampleMessages [.message [1], .raw 3 [0x7F]]).drop 15),
    .data 1 (markedWire (sampleConfig 0) sampleMessages [.message [2]])]

theorem incoming_lastUndecodable :
    Incoming (sampleConfig 0) sampleMessages 1 [.message [1], .raw 3 [0x7F], .message [2]] .fresh []
      lastUndecodable := by
  refine ⟨?_, by decide +kernel, fun _ => rfl, by decide +kernel, ?_, ?_⟩
  · have hall : ∀ s ∈ ([.message [1], .raw 3 [0x7F], .message [2]] : List (Sent Bytes)),
        1 + (s.payload sampleMessages).length < 2 ^ 48 := by decide +kernel
    exact hall
  · intro s _
    rw [length_bytes]
    show 0 < _
    omega
  · intro pre bad post hsplit hbad _
    refine ⟨2, ?_⟩
    have hpre : pre = [.message [1]] ∧ bad = .raw 3 [0x7F] := by
      rcases pre with _ | ⟨s, _ | ⟨t, _ | ⟨u, pre⟩⟩⟩
      · cases hsplit
        exact absurd hbad (by decide +kernel)
      · cases hsplit
        exact ⟨rfl, rfl⟩
      · cases hsplit
        exact absurd hbad (by decide +kernel)
      · simp at hsplit
    obtain ⟨rfl, rfl⟩ := hpre
    decide +kernel

/-- A connection whose faulty frame ends its event: the message behind it is handled as if it were absent. -/
theorem undecodable_discards_behind_nothing :
    handledOn 1 (runOnce (sampleConfig 0) sampleMessages (fun _ => false) (fun _ => none)
        (lastUndecodable.map MarkedEvent.raw)) =
      [(1, [.callback 1 .connect]), (1, [.message ⟨1, 3, [1]⟩]), (1, []), (1, [.message ⟨1, 3, [2]⟩])] := by
  refine ((undecodable_discards_behind (fun _ => rfl) (fun _ => none) lastUndecodable).2.1 1 _ _
    incoming_lastUndecodable).1.trans ?_
  decide +kernel

/-- A message behind a frame that does not decode. -/
def behindUndecodable : List MarkedEvent :=
  [.data 1 (markedWire (sampleConfig 0) sampleMessages [.raw 3 [0x7F], .message [2]])]

/-- A handler that throws at one message. -/
def throwsAtNine (d : Delivery Bytes) : Bool := d.msg == [9]

/-- That message with another one behind it, and a message of another connection. -/
def behindThrow : List MarkedEvent :=
  [.data 1 (((message [9]).bytes sampleMessages).map (fun b => (b, true)) ++
      ((message [2]).bytes sampleMessages).map (fun b => (b, false))),
    .data 2 (((message [3]).bytes sampleMessages).map (fun b => (b, false)))]

/-- **A faulty frame reaches others.**  The message behind a frame that does not decode is lost; and behind a
handler that throws the rest of the buffer and the other events of the batch are not handled. -/
theorem faults_reach_others : ((runOnce (sampleConfig 0) sampleMessages (fun _ => false) (fun _ => none)
        (behindUndecodable.map MarkedEvent.raw)).1 = [(1, [])] ∧
      (runOnce (sampleConfig 0) sampleMessages (fun _ => false) (fun _ => none)
        (behindUndecodable.map MarkedEvent.without)).1 = [(1, [.message ⟨1, 3, [2]⟩])]) ∧
    (runOnce (sampleConfig 0) sampleMessages throwsAtNine (fun _ => none)
        (behindThrow.map MarkedEvent.raw)).1 = [(1, [])] ∧
      (runOnce (sampleConfig 0) sampleMessages throwsAtNine (fun _ => none)
        (behindThrow.map MarkedEvent.without)).1 =
        [(1, [.message ⟨1, 3, [2]⟩]), (2, [.message ⟨2, 3, [3]⟩])] := by
  refine ⟨⟨?_, ?_⟩, ?_, ?_⟩ <;> decide +kernel

end Batch

end Fly.Network
