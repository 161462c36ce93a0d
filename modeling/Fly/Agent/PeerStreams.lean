import Fly.Agent.PeerStreamDelivery
import Fly.Agent.PeerStreamReceive
import Fly.Lib.Run

/-!
# A stream from end to end

The bytes of a stream arrive at the other end of a connection, cut into events in any way, until the
connection is lost or not.  The network thread and the thread that reads work on the stream at the same time.

* `StreamWorld`, `step` — the connection, the network thread and the reader; one step for each event, each
  access of the network thread to the shared state, and each step of an operation;
* `Served` — what the caller sees: the operations deliver the payload or throw, they throw only if the
  connection is lost, an operation can always go on unless it waits for the peer, and none goes on forever;
* `stream_served` — so it is in every state of a run in which no connection ends under the stream without a
  `DISCONNECT` event;
* `reader_hangs` — the run in which it does.
-/

namespace Fly.Agent

open Fly.Lib Fly.Storage List Option PeerStream Nat PeerStreamWriter PeerFrame

/-- A connection on which a stream comes in.  `rest` is what the peer has sent or will send and what has not
been received; `lost` says that no event will come any more; `thread` is the reader of the stream and what is
done with it, as soon as the stream is open. -/
structure StreamWorld where
  conn : PeerConn := {}
  rest : Bytes
  todo : List Effect := []
  lost : Bool := false
  thread : Option ReadThread := none
  dispatched : Bool := false
  deriving DecidableEq

inductive StreamAct where
  /-- the events of the transport -/
  | data (segment : Bytes)
  | disconnect
  | error
  /-- `close_connection`, called by another thread -/
  | close
  /-- the network thread carries out the next effect of an event -/
  | net
  /-- the operations of the reader, and its destructor -/
  | call (call : ReadCall)
  | read
  | abandon
  deriving DecidableEq

namespace StreamWorld

variable (M : StreamMessages) (c : Codecs) (w : StreamWorld)

def onRx (f : PeerStreamRxState → PeerStreamRxState) (w : StreamWorld) : StreamWorld :=
  { w with thread := w.thread.map fun t => { t with reader := { t.reader with rx := f t.reader.rx } } }

/-- The stream fails and the connection is closed. -/
def closeFatal : StreamWorld :=
  { w.onRx (fun rx => { rx with failed := true }) with conn := {}, todo := [], lost := true }

/-- The network thread carries out an effect; it waits for room in the queue. -/
def carryOut : Effect → Option StreamWorld
  -- a stream that is still open at `START` fails; its reader is not followed any more
  | .start m =>
    some { w with thread := some { reader := { compressionType := m.compressionType } }, dispatched := false }
  | .push record =>
    match w.thread with
    | none => some w
    | some t =>
      if t.reader.rx.failed then some w.closeFatal
      else if t.reader.rx.abandoned then some w
      else if t.reader.rx.qBytes + record.length ≤ PeerStreamRxState.kQueueBytes then
        some (w.onRx fun rx =>
          { rx with blocks := rx.blocks ++ [record], qBytes := rx.qBytes + record.length })
      else none
  | .finish m =>
    some (w.onRx fun rx =>
      { rx with
        endSeen := true
        endTotal := m.totalUncompressed
        endChunks := m.chunkCount
        endConsumed := m.consumed })
  | .message _ => some w
  | .dispatch => some { w with dispatched := w.thread.isSome }
  | .fatal => some w.closeFatal

def step : StreamAct → Option StreamWorld
  | .data segment =>
    if w.todo = [] ∧ w.lost = false ∧ segment <+: w.rest then
      let result := w.conn.onData M segment
      some { w with conn := result.1, todo := result.2, rest := w.rest.drop segment.length }
    else none
  | .disconnect =>
    if w.todo = [] ∧ w.lost = false then
      let w' := if w.conn.stream.isSome then w.onRx fun rx => { rx with failed := true } else w
      some { w' with conn := {}, lost := true }
    else none
  -- the loop does nothing about an error, but the transport has dropped the connection
  | .error => if w.todo = [] ∧ w.lost = false then some { w with lost := true } else none
  | .close =>
    if w.todo = [] ∧ w.lost = false then
      some { w with conn := { w.conn with recvBuf := [] }, lost := true }
    else none
  | .net =>
    match w.todo with
    | [] => none
    | effect :: todo => carryOut { w with todo } effect
  | .call call =>
    match w.thread with
    | none => none
    | some t =>
      if w.dispatched ∧ t.task = none ∧ t.reader.rx.abandoned = false then
        some { w with thread := some { t with task := some { call } } }
      else none
  | .read => w.thread.bind fun t => (t.step c).map fun t => { w with thread := some t }
  | .abandon =>
    match w.thread with
    | none => none
    | some t =>
      if w.dispatched ∧ t.task = none then some (w.onRx fun rx => { rx with abandoned := true }) else none

def init (s : PeerStream) : StreamWorld := { rest := (s.frames c).flatMap (bytes M) }

/-- A bound on the steps of the two threads with what is there. -/
def work : ℕ :=
  (8 * kFrameBytes + 2) * w.todo.length + (w.thread.map (ReadThread.work kFrameBytes)).getD 0

/-- **What the caller sees.** -/
structure Served (payload : Bytes) (w : StreamWorld) : Prop where
  delivers : ∀ t, w.thread = some t → Delivers payload t.results
  throws : ∀ t, w.thread = some t → (∃ r ∈ t.results, r.2 = none) → w.lost = true
  /-- an operation can go on, or the peer has more to send -/
  live : ∀ t k, w.thread = some t → t.task = some k →
    (∃ w', w.step M c .net = some w') ∨ (∃ w', w.step M c .read = some w') ∨ (w.lost = false ∧ w.rest ≠ [])
  bounded : ∀ a w', a = .net ∨ a = .read → w.step M c a = some w' → w'.work < w.work

/-- A connection does not end under a stream without a `DISCONNECT` event. -/
def Announced : StreamAct → Prop
  | .error => w.conn.stream = none
  | .close => w.conn.stream = none
  | _ => True

instance (a : StreamAct) : Decidable (w.Announced a) := by
  cases a <;> (dsimp only [Announced]; infer_instance)

end StreamWorld

/-! ### The invariant -/

namespace PeerStream

variable {c : Codecs} {s : PeerStream}

/-- The records of the stream with their plaintexts. -/
def asRecords (hround : c.RoundTrips s.compressionType) : Records c where
  compressionType := s.compressionType
  records := s.records c
  plains := s.blocks c
  isBlock := by
    rw [records, blocks, List.forall₂_map_left_iff, List.forall₂_map_right_iff, List.forall₂_same]
    exact fun b hb => isBlock_record hround hb

theorem payload_asRecords (hround : c.RoundTrips s.compressionType) :
    (asRecords hround).payload = s.payload :=
  flatten_blocks

theorem effect_at {e : ℕ} (hlt : e < (s.records c).length + 2) :
    ∃ x, (s.effects c).drop e = x :: (s.effects c).drop (e + 1) ∧ ((e = 0 ∧ x = .start s.start) ∨
        (∃ i, ∃ hi : i < (s.records c).length, e = i + 1 ∧ x = .push (s.records c)[i]) ∨
        (e = (s.records c).length + 1 ∧ x = .finish (s.trueCounts c))) := by
  have hlength : e < (s.effects c).length := by
    rw [PeerStream.effects, length_append, length_cons, length_map]
    exact hlt
  refine ⟨(s.effects c)[e], drop_eq_getElem_cons hlength, ?_⟩
  cases e with
  | zero => exact .inl ⟨rfl, rfl⟩
  | succ i =>
    refine .inr ?_
    rcases Nat.lt_or_ge i (s.records c).length with hi | hi
    · refine .inl ⟨i, hi, rfl, ?_⟩
      simp only [effects, cons_append, getElem_cons_succ]
      rw [getElem_append_left (by rw [length_map]; exact hi), getElem_map]
    · have hi' : i = (s.records c).length := by omega
      subst hi'
      simp [effects]

end PeerStream

namespace StreamWorld

section Invariant

variable {M : StreamMessages} {c : Codecs} {s : PeerStream} (hround : c.RoundTrips s.compressionType)

/-- The thread after `executed` effects: the reader serves its caller, or it is gone. -/
structure Attends (executed : ℕ) (lost : Bool) (t : ReadThread) : Prop where
  failed : t.reader.rx.failed = true → lost = true
  serves : t.reader.rx.abandoned = false → ∃ k out,
    Serves (PeerStream.asRecords hround) (min (executed - 1) (s.records c).length) t k out ∧
    (t.reader.rx.endSeen = true ↔ executed = (s.records c).length + 2) ∧
    (lost = true → executed < (s.records c).length + 2 → t.reader.rx.failed = true)
  gone : t.reader.rx.abandoned = true → t.task = none ∧ Delivers s.payload t.results ∧
    ((∃ r ∈ t.results, r.2 = none) → lost = true)

/-- `handled` frames have been cut, and `executed` effects carried out. -/
structure Inv (w : StreamWorld) (handled executed : ℕ) : Prop where
  executed_le : executed ≤ handled
  handled_le : handled ≤ (s.records c).length + 2
  todo : (w.todo = [] ∧ executed = handled) ∨
    w.todo = ((s.effects c).take handled).drop executed ++ [.dispatch]
  connected : w.lost = false → s.AtFrame M c handled w.conn w.rest
  received : w.lost = false → w.rest = [] → handled = (s.records c).length + 2
  closed : w.lost = true → w.todo = []
  unopened : executed = 0 → w.thread = none
  attends : 0 < executed → ∃ t, w.thread = some t ∧ Attends hround executed w.lost t

variable {hround} {w w' : StreamWorld} {handled executed : ℕ}

theorem inv_init : Inv (M := M) hround (init M c s) 0 0 where
  executed_le := le_rfl
  handled_le := Nat.zero_le _
  todo := Or.inl ⟨rfl, rfl⟩
  connected _ := ⟨Nat.zero_le _, rfl, fun hpos => absurd hpos (by decide), fun _ => rfl⟩
  received _ hrest := by
    obtain ⟨sent, hframes, -⟩ := frames_eq hround
    have hbytes : (s.frames c).flatMap (bytes M) = [] := hrest
    have hlength := congrArg List.length (append_eq_nil_iff.mp hbytes).1
    rw [length_bytes, length_nil] at hlength
    omega
  closed := nofun
  unopened _ := rfl
  attends hpos := absurd hpos (by decide)

/-- With nothing to do, all effects have been carried out. -/
theorem Inv.executed_eq (h : Inv (M := M) hround w handled executed) (hidle : w.todo = []) :
    executed = handled := by
  rcases h.todo with ⟨-, heq⟩ | htodo
  · exact heq
  · rw [hidle] at htodo
    exact absurd htodo.symm (by simp)

variable {t t' : ReadThread} {todo : List Effect} {lost : Bool} {k : Task} {a : StreamAct}

section

variable (h : Inv (M := M) hround w handled executed)

include h

/-- The thread is there as soon as the stream is open. -/
theorem Inv.thread (ht : w.thread = some t) : 0 < executed ∧ Attends hround executed w.lost t := by
  have hpos : 0 < executed := by
    by_contra hzero
    rw [h.unopened (by omega)] at ht
    cases ht
  obtain ⟨t', ht', hattends⟩ := h.attends hpos
  rw [ht] at ht'
  cases ht'
  exact ⟨hpos, hattends⟩

theorem Inv.withThread (ht : w.thread = some t) (hattends : Attends hround executed w.lost t') :
    Inv (M := M) hround { w with thread := some t' } handled executed :=
  { h with
    unopened := fun hzero => absurd hzero (Nat.pos_iff_ne_zero.mp (h.thread ht).1)
    attends := fun _ => ⟨t', rfl, hattends⟩ }

theorem Inv.data {segment : Bytes} (hstep : w.step M c (.data segment) = some w') :
    ∃ handled' executed', Inv (M := M) hround w' handled' executed' := by
  obtain ⟨⟨hidle, hopen, rest, hrest⟩, hstep⟩ := ite_none_right_eq_some.mp hstep
  cases hstep
  have hat := h.connected hopen
  rw [← hrest] at hat
  obtain ⟨handled', conn', hle, hcut, hat', hall⟩ := onData_of_atFrame hround hat
  have heq := h.executed_eq hidle
  rw [hcut, ← hrest, drop_left]
  refine ⟨handled', executed, by omega, hat'.le, .inr ?_, fun _ => hat', fun _ => hall, ?_, h.unopened,
    h.attends⟩
  · rw [heq]
  · exact fun hlost => absurd (hopen.symm.trans hlost) Bool.false_ne_true

/-- The connection ends. -/
theorem Inv.ends (hidle : w.todo = []) {conn : PeerConn}
    {thread : Option ReadThread} (hunopened : executed = 0 → thread = none)
    (hattends : 0 < executed → ∃ t, thread = some t ∧ Attends hround executed true t) :
    Inv (M := M) hround { w with conn, lost := true, thread } handled executed where
  executed_le := h.executed_le
  handled_le := h.handled_le
  todo := h.todo
  connected := nofun
  received := nofun
  closed _ := hidle
  unopened := hunopened
  attends := hattends

end

/-- A connection may end in silence outside the stream. -/
theorem Attends.lose (h : Attends hround executed false t)
    (hout : executed = (s.records c).length + 2) : Attends hround executed true t := by
  refine ⟨fun _ => rfl, fun hkept => ?_, fun hgone => ?_⟩
  · obtain ⟨k, out, hserves, hseen, -⟩ := h.serves hkept
    exact ⟨k, out, hserves, hseen, fun _ hlt => absurd hout (by omega)⟩
  · obtain ⟨htask, hdelivers, -⟩ := h.gone hgone
    exact ⟨htask, hdelivers, fun _ => rfl⟩

section

variable (h : Inv (M := M) hround w handled executed) {x : Effect}

include h

theorem Inv.silent (hidle : w.todo = []) (hopen : w.lost = false)
    (hstream : w.conn.stream = none) (conn : PeerConn) :
    Inv (M := M) hround { w with conn, lost := true } handled executed := by
  have hat := h.connected hopen
  refine h.ends hidle h.unopened fun hpos => ?_
  obtain ⟨t, ht, hattends⟩ := h.attends hpos
  rw [hopen] at hattends
  refine ⟨t, ht, hattends.lose ?_⟩
  have heq := h.executed_eq hidle
  by_contra hin
  obtain ⟨a, ha, -⟩ := hat.active (by omega) (by have := hat.le; omega)
  rw [hstream] at ha
  cases ha

theorem Inv.disconnect (hstep : w.step M c .disconnect = some w') :
    ∃ handled' executed', Inv (M := M) hround w' handled' executed' := by
  obtain ⟨⟨hidle, hopen⟩, hstep⟩ := ite_none_right_eq_some.mp hstep
  have heq := h.executed_eq hidle
  have hat := h.connected hopen
  cases hstream : w.conn.stream with
  | none =>
    rw [hstream] at hstep
    cases hstep
    exact ⟨handled, executed, h.silent hidle hopen hstream {}⟩
  | some a =>
    rw [hstream] at hstep
    cases hstep
    -- the stream is active: its reader is told
    have hin : 1 ≤ handled ∧ handled ≤ (s.records c).length + 1 := by
      by_contra hout
      rw [hat.idle hout] at hstream
      cases hstream
    refine ⟨handled, executed, h.ends hidle (fun hzero => absurd hzero (by omega)) fun hpos => ?_⟩
    obtain ⟨t, ht, hattends⟩ := h.attends hpos
    refine ⟨_, by rw [onRx, ht]; rfl, fun _ => rfl, fun hkept => ?_, fun hgone => ?_⟩
    · obtain ⟨k, out, hserves, hseen, -⟩ := hattends.serves hkept
      have hnotSeen : t.reader.rx.endSeen = false := by
        cases hend : t.reader.rx.endSeen with
        | false => rfl
        | true => have := hseen.mp hend; omega
      exact ⟨k, out, hserves.fail hnotSeen, hseen, fun _ _ => rfl⟩
    · obtain ⟨htask, hdelivers, -⟩ := hattends.gone hgone
      exact ⟨htask, hdelivers, fun _ => rfl⟩

/-- What the network thread has to do next: hand out the reader at the end of an event, or the next effect of
the stream. -/
theorem Inv.next (htodo : w.todo = x :: todo) :
    (x = .dispatch ∧ todo = [] ∧ executed = handled) ∨
      (executed < handled ∧ todo = ((s.effects c).take handled).drop (executed + 1) ++ [.dispatch] ∧
        ((executed = 0 ∧ x = .start s.start) ∨
          (∃ i, ∃ hi : i < (s.records c).length, executed = i + 1 ∧ x = .push (s.records c)[i]) ∨
          (executed = (s.records c).length + 1 ∧ x = .finish (s.trueCounts c)))) := by
  have hle := h.executed_le
  have hbound := h.handled_le
  rcases h.todo with ⟨hidle, -⟩ | hshape
  · rw [hidle] at htodo
    cases htodo
  rw [htodo] at hshape
  rcases lt_or_ge executed handled with hlt | hge
  · obtain ⟨y, hdrop, hkind⟩ := effect_at (c := c) (s := s) (e := executed) (by omega)
    have hmore : handled - executed = handled - (executed + 1) + 1 := by omega
    rw [drop_take, hdrop, hmore, take_succ_cons, cons_append] at hshape
    obtain ⟨rfl, rfl⟩ := cons.inj hshape
    rw [← drop_take]
    exact .inr ⟨hlt, rfl, hkind⟩
  · rw [drop_of_length_le ((length_take_le _ _).trans hge), nil_append] at hshape
    obtain ⟨rfl, rfl⟩ := cons.inj hshape
    exact .inl ⟨rfl, rfl, by omega⟩

theorem Inv.carriedOut (htodo : w.todo = x :: todo) (hlt : executed < handled)
    (hrest : todo = ((s.effects c).take handled).drop (executed + 1) ++ [.dispatch])
    (hattends : Attends hround (executed + 1) w.lost t) (dispatched : Bool) :
    Inv (M := M) hround { w with todo, thread := some t, dispatched } handled (executed + 1) :=
  { h with
    executed_le := hlt
    todo := Or.inr hrest
    closed := fun hlost => absurd (htodo.symm.trans (h.closed hlost)) (cons_ne_nil x todo)
    unopened := nofun
    attends := fun _ => ⟨t, rfl, hattends⟩ }

end

/-- The reader of a stream that has just been opened. -/
theorem attends_start (lost : Bool) (hopen : lost = false) :
    Attends hround 1 lost { reader := { compressionType := s.compressionType } } := by
  subst hopen
  refine ⟨fun hfailed => hfailed, fun _ => ⟨0, [], ?_, ?_, nofun⟩, nofun⟩
  · have hreads : Reads (asRecords hround) 0 { compressionType := s.compressionType } 0 [] :=
      ⟨rfl, zero_le _, le_rfl, rfl, rfl, rfl, rfl, rfl, rfl, rfl, rfl, (by intro hfalse; cases hfalse),
        (by intro hfalse; cases hfalse), (by intro hfalse; cases hfalse), (by intro hfalse; cases hfalse),
        rfl⟩
    refine ⟨?_, trivial, ?_, fun _ => rfl, nofun⟩
    · exact hreads
    · intro hthrown
      obtain ⟨r, hr, -⟩ := hthrown
      cases hr
  · constructor
    · exact nofun
    · omega

/-- A stream has not failed as long as the connection is there. -/
theorem Attends.not_failed (h : Attends hround executed false t) : t.reader.rx.failed = false :=
  Bool.eq_false_of_not_eq_true fun hfailed => Bool.false_ne_true (h.failed hfailed)

/-- **The network thread** puts in the next record, or notes `END` behind the last. -/
theorem Attends.push {i : ℕ} (h : Attends hround (i + 1) false t)
    (hi : i < (s.records c).length) (hkept : t.reader.rx.abandoned = false) :
    Attends hround (i + 1 + 1) false (t.withRx (t.reader.rx.put (s.records c)[i])) := by
  refine ⟨h.failed, fun _ => ?_, fun hgone => ?_⟩
  · obtain ⟨k, out, hserves, hseen, -⟩ := h.serves hkept
    have hpushed : min (i + 1 - 1) (s.records c).length = i := by omega
    have hpushed' : min (i + 1 + 1 - 1) (s.records c).length = i + 1 := by omega
    rw [hpushed] at hserves
    have hopen : t.reader.rx.ended = false := by
      rw [← Bool.not_eq_true, hserves.reads.ended_iff, hseen, h.not_failed]
      rintro (heq | hfailed)
      · omega
      · cases hfailed
    refine ⟨k, out, ?_, ?_, nofun⟩
    · rw [hpushed']
      exact hserves.push hi hopen
    · rw [show (t.reader.rx.endSeen = true ↔ _) from hseen]
      omega
  · exact absurd (hkept.symm.trans hgone) Bool.false_ne_true

theorem Attends.finish (h : Attends hround ((s.records c).length + 1) false t) :
    Attends hround ((s.records c).length + 1 + 1) false
      (t.withRx (t.reader.rx.noteEnd (s.trueCounts c))) := by
  refine ⟨h.failed, fun hkept => ?_, h.gone⟩
  obtain ⟨k, out, hserves, -, -⟩ := h.serves hkept
  have hpushed : min ((s.records c).length + 1 - 1) (s.records c).length = (s.records c).length := by omega
  have hpushed' : min ((s.records c).length + 1 + 1 - 1) (s.records c).length =
      (s.records c).length := by omega
  rw [hpushed] at hserves
  refine ⟨k, out, ?_, ⟨fun _ => rfl, fun _ => rfl⟩, nofun⟩
  rw [hpushed']
  refine hserves.finish rfl h.not_failed ⟨?_, rfl, rfl⟩
  rw [payload_asRecords hround]
  rfl

/-- Where a record goes, as long as the stream has not failed. -/
theorem carryOut_push (ht : w.thread = some t) (hopen : t.reader.rx.failed = false) (record : Bytes) :
    w.carryOut (.push record) =
      if t.reader.rx.abandoned then some w
      else if t.reader.rx.qBytes + record.length ≤ PeerStreamRxState.kQueueBytes then
        some { w with thread := some (t.withRx (t.reader.rx.put record)) }
      else none := by
  have hnot : ¬t.reader.rx.failed = true := by rw [hopen]; decide
  simp only [carryOut, ht, onRx, map_some, if_neg hnot]

theorem carryOut_finish (ht : w.thread = some t) (m : PeerStreamEnd) :
    w.carryOut (.finish m) = some { w with thread := some (t.withRx (t.reader.rx.noteEnd m)) } := by
  simp only [carryOut, ht, onRx, map_some]

/-- **The network thread** keeps the invariant, and uses up some of the work. -/
theorem Inv.net (h : Inv (M := M) hround w handled executed) (hstep : w.step M c .net = some w') :
    (∃ handled' executed', Inv (M := M) hround w' handled' executed') ∧ w'.work < w.work := by
  simp only [step] at hstep
  split at hstep
  · cases hstep
  rename_i x todo htodo
  have hopen : w.lost = false :=
    Bool.eq_false_of_not_eq_true fun hlost => cons_ne_nil x todo (htodo.symm.trans (h.closed hlost))
  have hwork : w.work = (8 * kFrameBytes + 2) * todo.length + (8 * kFrameBytes + 2) +
      (w.thread.map (ReadThread.work kFrameBytes)).getD 0 := by
    rw [work, htodo, length_cons, Nat.mul_add, Nat.mul_one]
  rw [hwork]
  rcases h.next htodo with ⟨rfl, rfl, heq⟩ | ⟨hlt, hrest, ⟨rfl, rfl⟩ | ⟨i, hi, rfl, rfl⟩ | ⟨rfl, rfl⟩⟩
  · cases hstep
    refine ⟨⟨handled, executed, { h with todo := .inl ⟨rfl, heq⟩, closed := fun _ => rfl }⟩, ?_⟩
    show 0 + (w.thread.map (ReadThread.work kFrameBytes)).getD 0 < _
    omega
  · cases hstep
    refine ⟨⟨handled, 1, h.carriedOut htodo hlt hrest (attends_start w.lost hopen) false⟩, ?_⟩
    show (8 * kFrameBytes + 2) * todo.length + 0 < _
    omega
  · obtain ⟨t, ht, hattends⟩ := h.attends (succ_pos i)
    rw [hopen] at hattends
    have hcarry := carryOut_push (w := { w with todo }) ht hattends.not_failed (s.records c)[i]
    rw [hcarry] at hstep
    split at hstep
    · next hgone =>
      cases hstep
      have hinv := h.carriedOut htodo hlt hrest (by
        rw [hopen]
        exact ⟨hattends.failed, fun hkept => absurd hgone (by rw [hkept]; decide),
          fun _ => hattends.gone hgone⟩) w.dispatched
      rw [← ht] at hinv
      refine ⟨⟨handled, _, hinv⟩, ?_⟩
      show (8 * kFrameBytes + 2) * todo.length + (w.thread.map (ReadThread.work kFrameBytes)).getD 0 < _
      omega
    · next hkept =>
      obtain ⟨-, hstep⟩ := ite_none_right_eq_some.mp hstep
      cases hstep
      refine ⟨⟨handled, _, h.carriedOut htodo hlt hrest ?_ w.dispatched⟩, ?_⟩
      · rw [hopen]
        exact hattends.push hi (by simpa using hkept)
      · rw [ht]
        show (8 * kFrameBytes + 2) * todo.length + ReadThread.work _ _ < _ + t.work kFrameBytes
        rw [ReadThread.work, ReadThread.work, PeerStreamReader.work, PeerStreamReader.work]
        dsimp only
        rw [length_append, length_singleton, Nat.mul_add _ _ 1, Nat.mul_one]
        omega
  · obtain ⟨t, ht, hattends⟩ := h.attends (succ_pos _)
    rw [hopen] at hattends
    have hcarry := carryOut_finish (w := { w with todo }) ht (s.trueCounts c)
    rw [hcarry] at hstep
    cases hstep
    refine ⟨⟨handled, _, h.carriedOut htodo hlt hrest ?_ w.dispatched⟩, ?_⟩
    · rw [hopen]
      exact hattends.finish
    · rw [ht]
      show (8 * kFrameBytes + 2) * todo.length + t.work kFrameBytes < _ + t.work kFrameBytes
      omega

/-! The operations of the reader. -/

section

variable (h : Attends hround executed lost t)

include h

theorem Attends.call (hidle : t.task = none) (hkept : t.reader.rx.abandoned = false) (call : ReadCall) :
    Attends hround executed lost { t with task := some { call } } := by
  refine ⟨h.failed, fun _ => ?_, fun hgone => absurd (hkept.symm.trans hgone) Bool.false_ne_true⟩
  obtain ⟨k, out, hserves, hseen, hfails⟩ := h.serves hkept
  exact ⟨k, out, hserves.begin hidle call, hseen, hfails⟩

theorem Attends.kept_of_task (htask : t.task = some k) : t.reader.rx.abandoned = false := by
  cases hgone : t.reader.rx.abandoned with
  | false => rfl
  | true =>
    rw [(h.gone hgone).1] at htask
    cases htask

theorem Attends.read (hstep : t.step c = some t') :
    Attends hround executed lost t' ∧ t'.work kFrameBytes < t.work kFrameBytes := by
  obtain ⟨task, htask, -⟩ := bind_eq_some_iff.mp hstep
  obtain ⟨k, out, hserves, hseen, hfails⟩ := h.serves (h.kept_of_task htask)
  obtain ⟨⟨k', out', hserves'⟩, hfailed', hseen', hless⟩ :=
    hserves.step (fun _ hplain => by
      obtain ⟨b, hb, rfl⟩ := mem_map.mp hplain
      exact describes_thread.2.2 b hb) hstep
  refine ⟨⟨fun hfailed => h.failed (hfailed' ▸ hfailed), fun _ => ⟨k', out', hserves', ?_, ?_⟩,
    fun hgone => ?_⟩, hless⟩
  · rw [hseen']
    exact hseen
  · rw [hfailed']
    exact hfails
  · rw [hserves'.reads.kept] at hgone
    cases hgone

theorem Attends.delivers :
    Delivers s.payload t.results ∧ ((∃ r ∈ t.results, r.2 = none) → lost = true) := by
  cases hgone : t.reader.rx.abandoned with
  | true => exact (h.gone hgone).2
  | false =>
    obtain ⟨k, out, hserves, -, -⟩ := h.serves hgone
    have hdelivers := hserves.delivers
    rw [payload_asRecords hround] at hdelivers
    exact ⟨hdelivers, fun hthrown => h.failed (hserves.thrown hthrown)⟩

theorem Attends.abandon (hidle : t.task = none) : Attends hround executed lost
      { t with reader := { t.reader with rx := { t.reader.rx with abandoned := true } } } :=
  ⟨h.failed, (by intro hkept; cases hkept), fun _ => ⟨hidle, h.delivers⟩⟩

end

variable (h : Inv (M := M) hround w handled executed)

include h

/-- **Every step keeps the invariant.** -/
theorem Inv.step (hannounced : w.Announced a)
    (hstep : w.step M c a = some w') : ∃ handled' executed', Inv (M := M) hround w' handled' executed' := by
  cases a with
  | data segment => exact h.data hstep
  | disconnect => exact h.disconnect hstep
  | net => exact (h.net hstep).1
  | error =>
    obtain ⟨⟨hidle, hopen⟩, hstep⟩ := ite_none_right_eq_some.mp hstep
    cases hstep
    exact ⟨handled, executed, h.silent hidle hopen hannounced w.conn⟩
  | close =>
    obtain ⟨⟨hidle, hopen⟩, hstep⟩ := ite_none_right_eq_some.mp hstep
    cases hstep
    exact ⟨handled, executed, h.silent hidle hopen hannounced _⟩
  | call call =>
    simp only [StreamWorld.step] at hstep
    split at hstep
    · cases hstep
    · next t ht =>
      obtain ⟨⟨-, hidle, hkept⟩, hstep⟩ := ite_none_right_eq_some.mp hstep
      cases hstep
      exact ⟨handled, executed, h.withThread ht ((h.thread ht).2.call hidle hkept call)⟩
  | read =>
    obtain ⟨t, ht, hread⟩ := bind_eq_some_iff.mp hstep
    obtain ⟨t', ht', rfl⟩ := map_eq_some_iff.mp hread
    exact ⟨handled, executed, h.withThread ht ((h.thread ht).2.read ht').1⟩
  | abandon =>
    simp only [StreamWorld.step] at hstep
    split at hstep
    · cases hstep
    rename_i t ht
    obtain ⟨⟨-, hidle⟩, hstep⟩ := ite_none_right_eq_some.mp hstep
    cases hstep
    have hinv := h.withThread ht ((h.thread ht).2.abandon hidle)
    rw [onRx, ht, map_some]
    exact ⟨handled, executed, hinv⟩

/-! What follows for the caller. -/

/-- An operation waits for nothing but the peer. -/
theorem Inv.live (ht : w.thread = some t) (htask : t.task = some k) :
    (∃ w', w.step M c .net = some w') ∨ (∃ w', w.step M c .read = some w') ∨
      (w.lost = false ∧ w.rest ≠ []) := by
  obtain ⟨hpos, hattends⟩ := h.thread ht
  obtain ⟨j, out, hserves, hseen, hfails⟩ := hattends.serves (hattends.kept_of_task htask)
  cases hread : t.step c with
  | some t' =>
    refine .inr (.inl ⟨{ w with thread := some t' }, ?_⟩)
    rw [StreamWorld.step, ht, bind_some, hread]
    rfl
  | none =>
    -- the queue is empty and the stream has not ended
    obtain ⟨hempty, hopen⟩ := hserves.enabled htask hread
    have hnot : ¬(t.reader.rx.endSeen = true ∨ t.reader.rx.failed = true) := by
      rw [← hserves.reads.ended_iff, hopen]
      decide
    have hfew : executed < (s.records c).length + 2 := by
      have hle := h.executed_le
      have hbound := h.handled_le
      have hne : executed ≠ (s.records c).length + 2 := fun heq => hnot (.inl (hseen.mpr heq))
      omega
    have hconnected : w.lost = false := by
      cases hlost : w.lost with
      | false => rfl
      | true => exact absurd (.inr (hfails hlost hfew)) hnot
    cases htodo : w.todo with
    | nil =>
      refine .inr (.inr ⟨hconnected, fun hrest => ?_⟩)
      have hall := h.received hconnected hrest
      have heq := h.executed_eq htodo
      omega
    | cons x todo =>
      refine .inl ?_
      simp only [StreamWorld.step, htodo]
      rcases h.next htodo with ⟨rfl, -, -⟩ | ⟨-, -, ⟨-, rfl⟩ | ⟨i, hi, -, rfl⟩ | ⟨-, rfl⟩⟩
      · exact ⟨_, rfl⟩
      · exact ⟨_, rfl⟩
      · -- there is room in an empty queue
        have hroom : t.reader.rx.qBytes + (s.records c)[i].length ≤ PeerStreamRxState.kQueueBytes := by
          have hlength : (s.records c)[i].length ≤ 16 + 4 * 1024 * 1024 :=
            length_record_le (getElem_mem hi)
          rw [hserves.reads.qBytes, hempty]
          show 0 + _ ≤ 64 * 1024 * 1024
          omega
        rw [hconnected] at hattends
        have hcarry := carryOut_push (w := { w with todo }) ht hattends.not_failed (s.records c)[i]
        rw [hattends.kept_of_task htask, if_neg (by decide), if_pos hroom] at hcarry
        exact ⟨_, hcarry⟩
      · exact ⟨_, rfl⟩

/-- **Both threads come to an end with what is there.** -/
theorem Inv.bounded (ha : a = .net ∨ a = .read) (hstep : w.step M c a = some w') : w'.work < w.work := by
  rcases ha with rfl | rfl
  · exact (h.net hstep).2
  · obtain ⟨t, ht, hread⟩ := bind_eq_some_iff.mp hstep
    obtain ⟨t', ht', rfl⟩ := map_eq_some_iff.mp hread
    rw [work, work, ht]
    exact Nat.add_lt_add_left ((h.thread ht).2.read ht').2 _

theorem Inv.served : Served M c s.payload w where
  delivers _ ht := (h.thread ht).2.delivers.1
  throws _ ht := (h.thread ht).2.delivers.2
  live _ _ ht htask := h.live ht htask
  bounded _ _ ha hstep := h.bounded ha hstep

end Invariant

/-- **A stream from end to end.**  Whatever is written, in whatever pieces it is received and however the two
threads interleave: in every state of a run in which no connection ends under the stream without a
`DISCONNECT` event, the operations of the reader have delivered the payload or thrown. -/
theorem stream_served {M : StreamMessages} {c : Codecs} {s : PeerStream}
    (hround : c.RoundTrips s.compressionType) {acts : List StreamAct} {w : StreamWorld}
    (hannounced : ∀ pre a post v, acts = pre ++ a :: post → run (step M c) (init M c s) pre = some v →
      v.Announced a)
    (hrun : run (step M c) (init M c s) acts = some w) : Served M c s.payload w := by
  have hinv : ∃ handled executed, Inv (M := M) hround w handled executed := by
    refine run_safe (I := fun v => ∃ handled executed, Inv (M := M) hround v handled executed)
      ?_ ⟨0, 0, inv_init⟩ hannounced hrun
    rintro v a v' ⟨handled, executed, h⟩ hsafe hstep
    exact h.step hsafe hstep
  obtain ⟨handled, executed, h⟩ := hinv
  exact h.served

def threeBytes : PeerStream := ⟨7, .request, .none, [[11, 12], [13]]⟩

def threeBytesWire : Bytes := (threeBytes.frames plainCodecs).flatMap (bytes packedMessages)

/-- The stream arrives in two events, cut inside the block; the caller reads a byte in between, and the
rest. -/
def readInTwo : List StreamAct :=
  [.data (threeBytesWire.take 30), .net, .net, .call (.read 1), .data (threeBytesWire.drop 30), .net, .read,
    .read, .net, .read, .net, .read, .read, .call .readAll] ++ replicate 8 .read

theorem stream_served_readInTwo : ∃ w,
    run (step packedMessages plainCodecs) (init packedMessages plainCodecs threeBytes) readInTwo = some w ∧
    w.thread.map ReadThread.results = some [(.read 1, some [11]), (.readAll, some [12, 13])] ∧
    Served packedMessages plainCodecs [11, 12, 13] w := by
  have hevents : ∀ a ∈ readInTwo, a ≠ .error ∧ a ≠ .close := by decide +kernel
  refine exists_and_of_decide (by decide +kernel) fun w hrun _ =>
    stream_served (s := threeBytes) nofun ?_ hrun
  intro pre a post v hsplit _
  obtain ⟨herror, hclose⟩ := hevents a (by rw [hsplit]; simp)
  cases a with
  | error => exact absurd rfl herror
  | close => exact absurd rfl hclose
  | data | disconnect | net | call | read | abandon => trivial

/-- The stream is opened, its reader is asked for a byte, and the connection is lost with an error. -/
def lostWithError : List StreamAct :=
  [.data ((streamStart threeBytes.start).bytes packedMessages), .net, .net, .call (.read 1), .error]

/-- The reader that waits for ever: asked for a byte, with nothing in its queue. -/
def waiting : ReadThread := { reader := { compressionType := .none }, task := some { call := .read 1 } }

/-- **A reader hangs.**  The connection is lost under the stream, but the reader is not told: the operation
has neither returned nor thrown, and nothing can happen any more. -/
theorem reader_hangs : ∃ w,
    run (step packedMessages plainCodecs) (init packedMessages plainCodecs threeBytes) lostWithError =
      some w ∧
    w.lost = true ∧ w.thread = some waiting ∧ ∀ a, w.step packedMessages plainCodecs a = none := by
  obtain ⟨w, hrun, htodo, hlost, hthread⟩ := exists_of_decide
    (o := run (step packedMessages plainCodecs) (init packedMessages plainCodecs threeBytes) lostWithError)
    (p := fun w => w.todo = [] ∧ w.lost = true ∧ w.thread = some waiting) (by decide +kernel)
  have hgone : ¬(w.todo = [] ∧ w.lost = false) := by
    rw [hlost]
    simp
  have hwaits : waiting.step plainCodecs = none := by decide +kernel
  refine ⟨w, hrun, hlost, hthread, fun a => ?_⟩
  cases a with
  | data segment => exact if_neg fun hguard => hgone ⟨hguard.1, hguard.2.1⟩
  | disconnect | error | close => exact if_neg hgone
  | net => rw [step, htodo]
  | call call =>
    simp only [step, hthread]
    exact if_neg fun hguard => absurd hguard.2.1 (by decide)
  | read =>
    rw [step, hthread, bind_some, hwaits]
    rfl
  | abandon =>
    simp only [step, hthread]
    exact if_neg fun hguard => absurd hguard.2 (by decide)

end StreamWorld

end Fly.Agent
