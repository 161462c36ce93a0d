import Fly.Agent.PeerFrames
import Fly.Lib.Threads

/-!
# Sending on a connection between peers (`peer_rpc_server.cpp`)

Any number of threads send on one connection.  Each hands its buffers to the transport in sections of
`send_mutex_`; most hand over a whole frame in one section, a `PeerStreamWriter` hands over the header of a
block in one section and its payload in the next.

* `BlockFrame` — a block as `send_block_frame` sends it;
* `PeerTransport` — the connection, with what the transport was given; `Instr`, `exec` — one section each;
* `Call`, `program` — the functions that send;
* `frames_whole` — what the transport was given is whole frames, up to the block that is under way, if
  nothing is sent between the two sections of a block;
* `frame_interrupted` — the run in which a notification of failure falls between them.
-/

namespace Fly.Agent

open Fly.Lib List Option PeerFrame Threaded World

/-- A block of a stream: its offset, the sixteen bytes of its header, and the payload. -/
structure BlockFrame where
  offset : UInt64
  blkHdr : Bytes
  payload : Bytes
  length_blkHdr : blkHdr.length = 16
  deriving DecidableEq

namespace BlockFrame

def frame (b : BlockFrame) : PeerFrame := .dataChunk b.offset (b.blkHdr ++ b.payload)

/-- The first buffer: the header of the chunk and that of the block. -/
def head (b : BlockFrame) : Bytes := chunkHeader b.offset (16 + b.payload.length) ++ b.blkHdr

theorem bytes_frame (M : StreamMessages) (b : BlockFrame) : b.frame.bytes M = b.head ++ b.payload := by
  rw [frame, PeerFrame.bytes_dataChunk, length_append, b.length_blkHdr, head, append_assoc]

end BlockFrame

/-! ### The connection -/

/-- What a section hands to the transport: a whole frame, or one of the two buffers of a block. -/
inductive Piece where
  | whole (f : PeerFrame)
  | head (b : BlockFrame)
  | payload (b : BlockFrame)
  deriving DecidableEq

namespace Piece

def bytes (M : StreamMessages) : Piece → Bytes
  | whole f => f.bytes M
  | head b => b.head
  | payload b => b.payload

/-- The frame that is complete with this piece. -/
def completes : Piece → Option PeerFrame
  | whole f => some f
  | head _ => none
  | payload b => some b.frame

/-- The block that is begun with this piece. -/
def begins : Piece → Option BlockFrame
  | head b => some b
  | _ => none

end Piece

/-- A connection takes what it is given, until it is closed or lost. -/
structure PeerTransport where
  connected : Bool := true
  handed : List Piece := []
  deriving DecidableEq

namespace PeerTransport

variable (M : StreamMessages) (s : PeerTransport)

def bytes : Bytes := s.handed.flatMap (Piece.bytes M)

/-- The frames that were handed over completely, in order. -/
def completed : List PeerFrame := s.handed.filterMap Piece.completes

/-- The block whose header was the last thing handed over. -/
def underWay : Option BlockFrame := s.handed.getLast?.bind Piece.begins

/-- A buffer for the connection; one that is lost takes nothing. -/
def send (p : Piece) : PeerTransport :=
  if s.connected then { s with handed := s.handed ++ [p] } else s

/-- Whole frames, and the header of the block that is under way. -/
def Whole : Prop :=
  s.bytes M = s.completed.flatMap (PeerFrame.bytes M) ++ (s.underWay.map BlockFrame.head).getD []

end PeerTransport

/-! ### The senders -/

namespace PeerSends

/-- The sections of `send_mutex_`.  What a `PeerStreamWriter` has still to send is in its instruction: the
blocks, and `END` unless the stream was aborted. -/
inductive Instr where
  /-- one buffer with a whole frame -/
  | send (f : PeerFrame)
  | streamStart (m : PeerStreamStart) (blocks : List BlockFrame) (last : Option PeerStreamEnd)
  | blockFrame (blocks : List BlockFrame) (last : Option PeerStreamEnd)
  | blockPayload (b : BlockFrame) (blocks : List BlockFrame) (last : Option PeerStreamEnd)
  | closeConnection
  deriving DecidableEq

open Instr

def Instr.piece : Instr → Option Piece
  | send f => some (.whole f)
  | streamStart m _ _ => some (.whole (.streamStart m))
  | blockFrame [] last => last.map fun m => .whole (.streamEnd m)
  -- a block without payload is one buffer
  | blockFrame (b :: _) _ => some (if b.payload = [] then .whole b.frame else .head b)
  | blockPayload b _ _ => some (.payload b)
  | closeConnection => none

/-- What the thread does after a send that succeeded. -/
def Instr.next : Instr → List Instr
  | send _ => []
  | streamStart _ blocks last | blockPayload _ blocks last => [blockFrame blocks last]
  | blockFrame [] _ => []
  | blockFrame (b :: blocks) last =>
    if b.payload = [] then [blockFrame blocks last] else [blockPayload b blocks last]
  | closeConnection => []

/-- After a send that failed, a writer sends nothing more. -/
def exec (_ : Unit) (s : PeerTransport) (op : Instr) : Option (PeerTransport × List Instr) :=
  match op with
  | .closeConnection => some ({ s with connected := false }, [])
  | _ => some ((op.piece.map s.send).getD s, if s.connected then op.next else [])

/-- The functions that send, and the loss of the connection. -/
inductive Call where
  | sendRequest (rpcId srcWorkerId : UInt64) (payload : Bytes)
  | sendResponse (rpcId : UInt64) (status : PeerRpcWireStatus) (payload : Bytes)
  | notifyFailure (reason : Bytes)
  | sendNotReady (rpcId : UInt64) (reason : Bytes)
  | sendBye
  | handleBye
  | sendStreamData (data : Bytes)
  | streamWriter (m : PeerStreamStart) (blocks : List BlockFrame) (last : Option PeerStreamEnd)
  | lost
  deriving DecidableEq

def program : Call → List Instr
  | .sendRequest rpcId srcWorkerId payload => [.send (.request rpcId srcWorkerId payload)]
  | .sendResponse rpcId status payload => [.send (.response rpcId status payload)]
  | .notifyFailure reason => [.send (.response 0 .notifyFailure reason)]
  | .sendNotReady rpcId reason => [.send (.response rpcId .notReady reason)]
  -- waits for the answer in between, for five seconds at most
  | .sendBye | .handleBye => [.send (.response 0 .bye []), .closeConnection]
  -- two buffers, but in one section
  | .sendStreamData data => [.send (.dataChunk 0 data)]
  | .streamWriter m blocks last => [.streamStart m blocks last]
  | .lost => [.closeConnection]

abbrev SendWorld := World PeerTransport Instr Empty

abbrev peerSends : Threaded PeerTransport Instr Empty Unit Call := .plain program exec

def SendWorld.init : SendWorld := { shared := {}, threads := [] }

/-- The instruction is the payload of the block. -/
def Instr.pays (b : BlockFrame) : Instr → Bool
  | .blockPayload b' _ _ => b' == b
  | _ => false

/-- While a block is under way, only its payload is handed over. -/
def Exclusive (w : SendWorld) (_ : Unit) (op : Instr) : Prop :=
  w.shared.connected = true → op.piece.isSome = true → ∀ b ∈ w.shared.underWay, op.pays b = true

instance (w : SendWorld) (e : Unit) (op : Instr) : Decidable (Exclusive w e op) :=
  inferInstanceAs (Decidable (_ → _ → ∀ b ∈ w.shared.underWay, _))

/-! ### What a section does -/

variable {b : BlockFrame}

section Sections

variable {M : StreamMessages} {s : PeerTransport} {op : Instr} {p : Piece}

theorem underWay_send (h : s.connected = true) (p : Piece) : (s.send p).underWay = p.begins := by
  rw [PeerTransport.send, if_pos h, PeerTransport.underWay, List.getLast?_concat, bind_some]

theorem bytes_send (h : s.connected = true) (p : Piece) : (s.send p).bytes M = s.bytes M ++ p.bytes M := by
  rw [PeerTransport.send, if_pos h, PeerTransport.bytes, flatMap_append, flatMap_singleton]
  rfl

theorem completed_send (h : s.connected = true) (p : Piece) :
    (s.send p).completed = s.completed ++ p.completes.toList := by
  rw [PeerTransport.send, if_pos h, PeerTransport.completed, filterMap_append]
  cases p <;> rfl

/-- A frame in one piece, or the header of a block, after whole frames. -/
theorem Whole.send (h : s.Whole M) (hconn : s.connected = true) (hnone : s.underWay = none)
    (hp : ∀ b, p ≠ .payload b) : (s.send p).Whole M := by
  rw [PeerTransport.Whole, hnone, map_none, getD_none, append_nil] at h
  rw [PeerTransport.Whole, underWay_send hconn, bytes_send hconn, completed_send hconn, h]
  cases p with
  | whole f | head b => simp [Piece.bytes, Piece.completes, Piece.begins]
  | payload b => exact absurd rfl (hp b)

theorem Whole.payload (h : s.Whole M) (hconn : s.connected = true)
    (hb : s.underWay = some b) : (s.send (.payload b)).Whole M := by
  rw [PeerTransport.Whole, hb, map_some, getD_some] at h
  rw [PeerTransport.Whole, underWay_send hconn, bytes_send hconn, completed_send hconn, h]
  simp [Piece.bytes, Piece.completes, Piece.begins, BlockFrame.bytes_frame]

/-- The instruction as a number: is it the payload of the block? -/
def Instr.owes (b : BlockFrame) (op : Instr) : ℕ := if op.pays b then 1 else 0

/-- A thread goes on with a payload exactly after the header of that block. -/
theorem owes_next (b : BlockFrame) :
    (op.next.map (owes b)).sum = if op.piece.bind Piece.begins = some b then 1 else 0 := by
  cases op with
  | send | streamStart | blockPayload | closeConnection => rfl
  | blockFrame blocks last =>
    cases blocks with
    | nil => cases last <;> rfl
    | cons b' blocks =>
      by_cases hempty : b'.payload = []
      all_goals simp [Instr.next, Instr.piece, Instr.owes, Instr.pays, Piece.begins, hempty]

theorem eq_of_pays (h : op.pays b = true) :
    ∃ blocks last, op = .blockPayload b blocks last := by
  cases op with
  | send f | streamStart m blocks last | blockFrame blocks last | closeConnection => cases h
  | blockPayload b' blocks last => exact ⟨blocks, last, by rw [beq_iff_eq.mp h]⟩

/-- Only a payload is handed over as one. -/
theorem piece_ne_payload (h : ∀ b, op.pays b = false) (hp : op.piece = some p) :
    ∀ b, p ≠ .payload b := by
  intro b hb
  subst hb
  cases op with
  | send f | streamStart m blocks last | closeConnection => cases hp
  | blockPayload b' blocks last =>
    have hself := h b'
    simp [pays] at hself
  | blockFrame blocks last =>
    cases blocks with
    | nil => cases last <;> cases hp
    | cons b' blocks =>
      simp only [piece, Option.some.injEq] at hp
      split at hp <;> cases hp

end Sections

/-! ### Runs -/

/-- What was handed over is whole so far, and an open connection waits for exactly the payload of the block
that is under way. -/
structure Intact (M : StreamMessages) (w : SendWorld) : Prop where
  whole : w.shared.Whole M
  owed : w.shared.connected = true → ∀ b, w.weigh (owes b) = if w.shared.underWay = some b then 1 else 0

section Run

variable {M : StreamMessages} {w : SendWorld} {i : ℕ} {op : Instr} {rest : List Instr}

theorem intact_init : Intact M SendWorld.init := ⟨rfl, fun _ _ => rfl⟩

theorem Intact.call (h : Intact M w) (g : Call) :
    Intact M { w with threads := w.threads ++ [program g] } := by
  refine ⟨h.whole, fun hconn b => ?_⟩
  have hprogram : ((program g).map (owes b)).sum = 0 := by cases g <;> rfl
  rw [weigh_call, hprogram, Nat.add_zero]
  exact h.owed hconn b

/-- An instruction that is about to be executed is owed. -/
theorem Intact.underWay (h : Intact M w) (hi : w.threads[i]? = some (op :: rest))
    (hconn : w.shared.connected = true) (hpays : op.pays b = true) :
    w.shared.underWay = some b := by
  have hweigh := weigh_exec (f := owes b) hi [] w.shared none
  have howed := h.owed hconn b
  have hop : owes b op = 1 := if_pos hpays
  rw [hop, map_nil, sum_nil] at hweigh
  by_contra hne
  rw [if_neg hne] at howed
  omega

/-- **A section keeps the frames whole.** -/
theorem Intact.exec {e : Unit} {s : PeerTransport} {todo : List Instr} (h : Intact M w)
    (hi : w.threads[i]? = some (op :: rest)) (hok : Exclusive w e op)
    (hexec : exec e w.shared op = some (s, todo)) :
    Intact M (w.proceed i s (todo ++ rest)) := by
  by_cases hclose : op = .closeConnection
  · subst hclose
    cases hexec
    exact ⟨h.whole, nofun⟩
  have hstep : s = (op.piece.map w.shared.send).getD w.shared ∧
      todo = if w.shared.connected then op.next else [] := by
    cases op with
    | closeConnection => exact absurd rfl hclose
    | send f | streamStart m blocks last | blockFrame blocks last | blockPayload b blocks last =>
      cases hexec
      exact ⟨rfl, rfl⟩
  obtain ⟨rfl, rfl⟩ := hstep
  by_cases hconn : w.shared.connected = true
  swap
  · -- a lost connection takes nothing
    have hsame : (op.piece.map w.shared.send).getD w.shared = w.shared := by
      cases op.piece with
      | none => rfl
      | some p => exact if_neg hconn
    rw [hsame]
    exact ⟨h.whole, fun hstill => absurd hstill hconn⟩
  rw [if_pos hconn]
  have hweigh : ∀ b, weigh (owes b) { w with
      shared := (op.piece.map w.shared.send).getD w.shared
      threads := w.threads.set i (op.next ++ rest) } + owes b op =
        weigh (owes b) w + if op.piece.bind Piece.begins = some b then 1 else 0 := by
    intro b
    rw [← owes_next b]
    exact weigh_exec hi op.next _ w.holder
  have howed := h.owed hconn
  by_cases hpays : ∃ b, op.pays b = true
  · -- the payload of the block that is under way
    obtain ⟨b, hb⟩ := hpays
    have hunder := h.underWay hi hconn hb
    obtain ⟨blocks, last, rfl⟩ := eq_of_pays hb
    refine ⟨Whole.payload h.whole hconn hunder, fun _ b' => ?_⟩
    show _ = if (w.shared.send (.payload b)).underWay = some b' then 1 else 0
    rw [underWay_send hconn]
    have hsum := hweigh b'
    rw [howed b', hunder, owes] at hsum
    simp only [pays, beq_iff_eq, Option.some.injEq] at hsum
    exact Nat.add_right_cancel (hsum.trans (Nat.add_comm _ _))
  · have hnot : ∀ b, op.pays b = false := fun b => by
      by_contra hb
      exact hpays ⟨b, by simpa using hb⟩
    have howes : ∀ b, owes b op = 0 := fun b => if_neg (by rw [hnot b]; decide)
    cases hpiece : op.piece with
    | none =>
      -- the end of a stream that was aborted
      refine ⟨h.whole, fun _ b => ?_⟩
      have hsum := hweigh b
      rw [hpiece, howes b, howed b] at hsum
      exact hsum
    | some p =>
      have hnone : w.shared.underWay = none := by
        refine eq_none_iff_forall_not_mem.mpr fun b hb => ?_
        have hmust := hok hconn (by rw [hpiece]; rfl) b hb
        rw [hnot b] at hmust
        cases hmust
      refine ⟨Whole.send h.whole hconn hnone (piece_ne_payload hnot hpiece), fun _ b => ?_⟩
      have hsum := hweigh b
      rw [hpiece, howes b, howed b, hnone] at hsum
      show _ = if (w.shared.send p).underWay = some b then 1 else 0
      rw [underWay_send hconn]
      simpa using hsum

/-- **Frames stay whole.**  In every run in which nothing is handed over between the two sections of a
block but its own payload, the transport was given whole frames, one after another, and the header of the
block that is under way; as long as the connection is open, its payload is still to come. -/
theorem frames_whole {as : List (Action Unit Call)} (hmeets : peerSends.Meets (atInstr Exclusive)
    SendWorld.init as) (hrun : run peerSends.step SendWorld.init as = some w) :
    w.shared.Whole M ∧ (w.shared.connected = true →
      ∀ b ∈ w.shared.underWay, w.Has fun op => op.pays b = true) := by
  have hintact : Intact M w := by
    refine plain_run_meets (I := Intact M) (C := Exclusive) ?_ ?_ intact_init hmeets hrun
    · intro w g h
      exact h.call g
    · intro w i e op rest s todo h hi hok hexec
      exact h.exec hi hok hexec
  refine ⟨hintact.whole, fun hconn b hb => ?_⟩
  have howed := hintact.owed hconn b
  rw [if_pos (mem_def.mp hb)] at howed
  obtain ⟨thread, hthread, op, hop, hpos⟩ := has_of_weigh_pos (f := owes b) (w := w) (by omega)
  refine ⟨thread, hthread, op, hop, ?_⟩
  by_contra hnot
  exact absurd (if_neg hnot) (Nat.ne_of_gt hpos)

end Run

/-! ### Two runs -/

def oneByte : BlockFrame where
  offset := 0
  blkHdr := [1, 0, 0, 0, 1, 0, 0, 0, 0, 0, 0, 0, 0, 0, 0, 0]
  payload := [65]
  length_blkHdr := rfl

def oneByteStream : Call :=
  .streamWriter ⟨7, .request, .none⟩ [oneByte] (some ⟨7, 1, 1, 17⟩)

/-- A stream and a request on one connection; the request waits until the block is complete. -/
def requestBehindBlock : List (Action Unit Call) :=
  [.call oneByteStream, .call (.sendRequest 8 1 [66]), .step 0 (), .step 0 (), .step 0 (), .step 1 (),
    .step 0 ()]

theorem frames_whole_requestBehindBlock : ∃ w,
    run peerSends.step SendWorld.init requestBehindBlock = some w ∧
    w.shared.completed.length = 4 ∧ w.shared.underWay = none ∧
    w.shared.bytes packedMessages = w.shared.completed.flatMap (bytes packedMessages) := by
  have hmeets : peerSends.Meets (atInstr Exclusive) SendWorld.init requestBehindBlock :=
    meets_of_decide (by decide +kernel)
  obtain ⟨w, hrun, hcompleted, hnone⟩ := exists_of_decide
    (o := run peerSends.step SendWorld.init requestBehindBlock)
    (p := fun w => w.shared.completed.length = 4 ∧ w.shared.underWay = none) (by decide +kernel)
  have hwhole := (frames_whole (M := packedMessages) hmeets hrun).1
  rw [PeerTransport.Whole, hnone, map_none, getD_none, append_nil] at hwhole
  exact ⟨w, hrun, hcompleted, hnone, hwhole⟩

/-- A notification of failure is sent while the payload of the block is still to come. -/
def failureInsideBlock : List (Action Unit Call) :=
  [.call oneByteStream, .call (.notifyFailure []), .step 0 (), .step 0 (), .step 1 (), .step 0 (),
    .step 0 ()]

/-- **A frame is interrupted**: all threads are through and the connection was never lost, but what the
transport was given is not a sequence of whole frames. -/
theorem frame_interrupted : ∃ w, run peerSends.step SendWorld.init failureInsideBlock = some w ∧
    w.shared.connected = true ∧ w.threads = [[], []] ∧
    ¬∃ frames : List PeerFrame, w.shared.bytes packedMessages = frames.flatMap (bytes packedMessages) := by
  obtain ⟨w, hrun, hconn, hthreads, hlength, hsplit⟩ := exists_of_decide
    (o := run peerSends.step SendWorld.init failureInsideBlock)
    (p := fun w => w.shared.connected = true ∧ w.threads = [[], []] ∧
      (w.shared.bytes packedMessages).length = 120 ∧
      (((peerFraming packedMessages).split (w.shared.bytes packedMessages)).flatMap
        fun x => x.1 ++ x.2).length = 113) (by decide +kernel)
  refine ⟨w, hrun, hconn, hthreads, ?_⟩
  intro ⟨frames, hframes⟩
  -- whole frames would be read back to the last byte
  have hall : w.shared.bytes packedMessages = (peerFraming packedMessages).encodeAll frames := hframes
  have hsized : ∀ f ∈ frames, (peerFraming packedMessages).Sized f := by
    intro f hf
    refine sized_of_lt ?_
    have hle : (f.bytes packedMessages).length ≤ (w.shared.bytes packedMessages).length := by
      rw [hframes, flatMap_def]
      exact (sublist_flatten_of_mem (mem_map_of_mem hf)).length_le
    rw [length_bytes] at hle
    omega
  rw [hall, Framing.flatMap_split_encodeAll hsized, ← hall, hlength] at hsplit
  exact absurd hsplit (by decide)

end PeerSends

end Fly.Agent
