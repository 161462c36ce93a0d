import Fly.Agent.PeerFrames
import Fly.Lib.Lanes
import Fly.Lib.Run

/-!
# The reactor (`reactor.cpp`, `reactor.h`, `message_protocol.h`)

One thread takes the events of the transport.  The bytes of a connection are collected in a buffer; as long
as a whole frame stands at its front the frame is taken off and given to the handler that is registered for
its type.  Without handler lanes the handler runs on the thread itself; with lanes the frame goes to the
lane of its connection, or, for a type of the serialized domain, to a lane kept for all of them.

* `getType`, `Messages.decode` — the two readers of a frame;
* `Sent` — what the other side puts on a connection; `sentFraming` — as a frame format;
* `ReactorConfig`, `Task`, `laneIndex` — what is registered, and where a task goes;
* `round` — what one round of the loop of `dispatch_message` finds; `round_bytes` and `round_of_short` —
  a whole frame, and less than one;
* `World`, `ReactorAct`, `step` — the thread, one round at a time, among the workers of the lanes.
-/

namespace Fly.Network

open Fly.Lib Fly.Storage Fly.Agent List

abbrev ConnId := ℕ

/-! ### Frames and messages -/

def isValidMessageType (raw : UInt8) : Bool := 1 ≤ raw && raw ≤ 68

/-- `MessageProtocol::get_type`.  `INVALID`, which is `0`, stands for a frame that is not whole, a header
that is not valid and a type that does not exist. -/
def getType (buffer : Bytes) : UInt8 :=
  if buffer.length < 9 then 0
  else
    match parseFrameHeader buffer with
    | none => 0
    | some totalLen =>
      if buffer.length < 8 + totalLen then 0
      else if isValidMessageType (buffer.getD 8 0) then buffer.getD 8 0
      else 0

/-- The message classes: `decodePayload` is the deserialisation together with the range checks that
`decode` makes on the fields it has read.  A payload that was encoded is read back as it was, if it is
accepted at all. -/
structure Messages (μ : Type) where
  msgType : μ → UInt8
  encodePayload : μ → Bytes
  decodePayload : UInt8 → Bytes → Option μ
  decode_encode : ∀ m m', decodePayload (msgType m) (encodePayload m) = some m' → m' = m

variable {μ : Type}

/-- `MessageProtocol::decode` for the class of type `type`: the message and the buffer without its frame.
Where it fails the buffer stays as it is. -/
def Messages.decode (M : Messages μ) (type : UInt8) (buffer : Bytes) : Option (μ × Bytes) :=
  if buffer.length < 9 then none
  else
    match parseFrameHeader buffer with
    | none => none
    | some totalLen =>
      if buffer.length < 8 + totalLen then none
      else if isValidMessageType (buffer.getD 8 0) = false then none
      else if buffer.getD 8 0 ≠ type then none
      else
        match M.decodePayload type ((buffer.drop 9).take (totalLen - 1)) with
        | none => none
        | some m => some (m, buffer.drop (8 + totalLen))

/-- A frame on the wire: a message that was encoded, or any type byte with any payload. -/
inductive Sent (μ : Type) where
  | message (m : μ)
  | raw (type : UInt8) (payload : Bytes)

namespace Sent

variable (M : Messages μ) (s : Sent μ)

def type : Sent μ → UInt8
  | message m => M.msgType m
  | raw t _ => t

def payload : Sent μ → Bytes
  | message m => M.encodePayload m
  | raw _ p => p

/-- The type byte and the payload. -/
def body : Bytes := s.type M :: s.payload M

def header : Bytes := toBE 8 (makeFrameHeader (1 + (s.payload M).length))

def bytes : Bytes := s.header M ++ s.body M

/-- The length of the frame fits into the header. -/
def Fits : Prop := 1 + (s.payload M).length < 2 ^ 48

/-- What a handler has to be given: the message that was encoded, if its payload is accepted. -/
def delivered : Sent μ → Option μ
  | message m => if (M.decodePayload (M.msgType m) (M.encodePayload m)).isSome then some m else none
  | raw t p => M.decodePayload t p

variable {M}

theorem length_header : (s.header M).length = 8 := length_toBE 8 _

theorem length_bytes : (s.bytes M).length = 8 + (1 + (s.payload M).length) := by
  rw [bytes, length_append, length_header, body, length_cons, Nat.add_comm 1]

/-- Reading a payload gives what a handler has to be given. -/
theorem decodePayload_eq : M.decodePayload (s.type M) (s.payload M) = s.delivered M := by
  cases s with
  | raw t p => rfl
  | message m =>
    show M.decodePayload (M.msgType m) (M.encodePayload m) = if _ then some m else none
    cases hdecode : M.decodePayload (M.msgType m) (M.encodePayload m) with
    | none => rfl
    | some m' =>
      rw [M.decode_encode m m' hdecode]
      rfl

variable {s} (hs : s.Fits M)

include hs in
theorem parseFrameHeader_bytes (rest : Bytes) :
    parseFrameHeader (s.bytes M ++ rest) = some (1 + (s.payload M).length) := by
  exact parseFrameHeader_make (by omega) hs _

theorem getD_bytes (s : Sent μ) (rest : Bytes) : (s.bytes M ++ rest).getD 8 0 = s.type M := by
  have hbytes : s.bytes M ++ rest = s.header M ++ (s.type M :: (s.payload M ++ rest)) := by
    rw [bytes, body, append_assoc, cons_append]
  rfl

theorem payload_bytes (s : Sent μ) (rest : Bytes) :
    ((s.bytes M ++ rest).drop 9).take (s.payload M).length = s.payload M := by
  have hbytes : s.bytes M ++ rest = (s.header M ++ [s.type M]) ++ (s.payload M ++ rest) := by
    simp [bytes, body]
  have hlength : (s.header M ++ [s.type M]).length = 9 := by
    rw [length_append, length_header, length_singleton]
  rw [hbytes, drop_left' hlength, take_left]

theorem not_length_lt (rest : Bytes) :
    ¬(s.bytes M ++ rest).length < 8 + (1 + (s.payload M).length) := by
  rw [length_append, length_bytes]
  omega

include hs in
theorem getTotalSize_bytes (rest : Bytes) :
    getTotalSize (s.bytes M ++ rest) = 1 + (s.payload M).length := by
  have hwhole := not_length_lt (s := s) (M := M) rest
  have hlong : ¬(s.bytes M ++ rest).length < 8 := by omega
  rw [getTotalSize, if_neg hlong, parseFrameHeader_bytes hs, Option.getD_some]

include hs in
theorem getType_bytes (rest : Bytes) :
    getType (s.bytes M ++ rest) = if isValidMessageType (s.type M) then s.type M else 0 := by
  have hwhole := not_length_lt (s := s) (M := M) rest
  have hlong : ¬(s.bytes M ++ rest).length < 9 := by omega
  rw [getType, if_neg hlong, parseFrameHeader_bytes hs]
  dsimp only
  rw [if_neg hwhole, getD_bytes]

include hs in
/-- A whole frame at the front is read, whatever stands behind it. -/
theorem decode_bytes (hvalid : isValidMessageType (s.type M) = true) (rest : Bytes) :
    M.decode (s.type M) (s.bytes M ++ rest) = (s.delivered M).map fun m => (m, rest) := by
  have hwhole := not_length_lt (s := s) (M := M) rest
  have hlong : ¬(s.bytes M ++ rest).length < 9 := by omega
  rw [Messages.decode, if_neg hlong, parseFrameHeader_bytes hs]
  dsimp only
  rw [if_neg hwhole, getD_bytes, if_neg (by rw [hvalid]; decide), if_neg (not_not_intro rfl),
    Nat.add_sub_cancel_left, payload_bytes, decodePayload_eq, drop_left' (length_bytes s)]
  cases s.delivered M <;> rfl

end Sent

/-- The frames of a connection as a frame format. -/
def sentFraming (M : Messages μ) : Framing (Sent μ) where
  headerSize := 8
  headerSize_pos := eight_pos
  header := Sent.header M
  body := Sent.body M
  bodySize h := (parseFrameHeader h).getD 0
  length_header := Sent.length_header

def wire (M : Messages μ) (frames : List (Sent μ)) : Bytes := (sentFraming M).encodeAll frames

theorem wire_cons (M : Messages μ) (s : Sent μ) (frames : List (Sent μ)) :
    wire M (s :: frames) = s.bytes M ++ wire M frames := Framing.encodeAll_cons s frames

theorem wire_append (M : Messages μ) (front back : List (Sent μ)) :
    wire M (front ++ back) = wire M front ++ wire M back := flatMap_append

/-! ### The configuration -/

/-- The call of a message handler. -/
structure Delivery (μ : Type) where
  conn : ConnId
  type : UInt8
  msg : μ
  deriving DecidableEq

inductive LifecycleEvent where
  | connect
  | disconnect
  | error (code : ℤ)
  deriving DecidableEq

/-- `registered` are the keys of `handlers_`: types of message classes, so `INVALID` is not among them. -/
structure ReactorConfig where
  registered : UInt8 → Bool
  registered_valid : ∀ t, registered t = true → isValidMessageType t = true
  handlerLanes : ℕ
  serializedTypes : UInt8 → Bool
  serializeLifecycleEvents : Bool
  connectHandler : Bool
  disconnectHandler : Bool
  errorHandler : Bool

/-- What runs on a lane: a handler on the raw bytes it is given, or the callback of an event. -/
inductive Task where
  | frame (conn : ConnId) (type : UInt8) (raw : Bytes)
  | callback (conn : ConnId) (event : LifecycleEvent)
  deriving DecidableEq

/-- The call that the handler of a frame makes: none, if the frame is not decoded. -/
def Task.delivery (M : Messages μ) : Task → Option (Delivery μ)
  | .frame conn type raw => (M.decode type raw).map fun x => ⟨conn, type, x.1⟩
  | .callback _ _ => none

namespace ReactorConfig

variable (cfg : ReactorConfig)

/-- The lane of a task: `lanes_` has one lane more than `handler_lane_count_`. -/
def laneIndex : Task → ℕ
  | .frame conn type _ =>
    (if cfg.serializedTypes type then cfg.handlerLanes else conn % cfg.handlerLanes) % (cfg.handlerLanes + 1)
  | .callback conn _ =>
    (if cfg.serializeLifecycleEvents then cfg.handlerLanes else conn % cfg.handlerLanes) %
      (cfg.handlerLanes + 1)

def hasCallback : LifecycleEvent → Bool
  | .connect => cfg.connectHandler
  | .disconnect => cfg.disconnectHandler
  | .error _ => cfg.errorHandler

/-! ### One round of the loop -/

/-- What a round of `dispatch_message` finds at the front of the buffer. -/
inductive Round where
  | wait
  | skip (size : ℕ)
  | malformed
  | frame (type : UInt8) (size : ℕ)
  deriving DecidableEq

def round (buffer : Bytes) : Round :=
  let type := getType buffer
  let totalSize := getTotalSize buffer
  if cfg.registered type = false then
    if 0 < totalSize ∧ 8 + totalSize ≤ buffer.length then .skip (8 + totalSize) else .wait
  else if totalSize < 1 ∨ buffer.length < 8 + totalSize then .malformed
  else .frame type (8 + totalSize)

variable {cfg} {M : Messages μ} {s : Sent μ}

theorem registered_zero : cfg.registered 0 = false := by
  cases h : cfg.registered 0 with
  | false => rfl
  | true => exact absurd (cfg.registered_valid 0 h) (by decide)

/-- **A whole frame**: it is handled or skipped, whatever stands behind it. -/
theorem round_bytes (hs : s.Fits M) (rest : Bytes) : cfg.round (s.bytes M ++ rest) =
      if cfg.registered (s.type M) then .frame (s.type M) (s.bytes M).length
      else .skip (s.bytes M).length := by
  have hsize : 0 < 1 + (s.payload M).length ∧
      8 + (1 + (s.payload M).length) ≤ (s.bytes M ++ rest).length := by
    rw [length_append, Sent.length_bytes]
    omega
  unfold round
  rw [Sent.getType_bytes hs, Sent.getTotalSize_bytes hs, Sent.length_bytes]
  cases hreg : cfg.registered (s.type M) with
  | true =>
    rw [if_pos (cfg.registered_valid _ hreg), if_neg (by rw [hreg]; decide), if_neg (by omega)]
    rfl
  | false =>
    have hnone : cfg.registered (if isValidMessageType (s.type M) then s.type M else 0) = false := by
      split
      · exact hreg
      · exact registered_zero
    rw [if_pos hnone, if_pos hsize]
    rfl

/-- **Less than a whole frame** is left in the buffer. -/
theorem round_of_short (hs : s.Fits M) {tail : Bytes} (hpart : tail <+: s.bytes M)
    (hshort : tail.length < (s.bytes M).length) : cfg.round tail = .wait := by
  rw [Sent.length_bytes] at hshort
  obtain ⟨rest, hrest⟩ := hpart
  have hparse : 8 ≤ tail.length → parseFrameHeader tail = some (1 + (s.payload M).length) := by
    intro hlong
    have htake : (tail ++ rest).take 8 = tail.take 8 := take_append_of_le_length hlong
    have hwhole := Sent.parseFrameHeader_bytes hs []
    rw [append_nil, ← hrest] at hwhole
    unfold parseFrameHeader at hwhole ⊢
    rwa [htake] at hwhole
  have htype : getType tail = 0 := by
    unfold getType
    split
    · rfl
    · rw [hparse (by omega)]
      dsimp only
      rw [if_pos hshort]
  have hsize : ¬(0 < getTotalSize tail ∧ 8 + getTotalSize tail ≤ tail.length) := by
    unfold getTotalSize
    split
    · omega
    · rw [hparse (by omega), Option.getD_some]
      omega
  unfold round
  rw [htype, if_pos registered_zero, if_neg hsize]

end ReactorConfig

/-! ### The reactor at work -/

inductive TransportEvent where
  | connect (conn : ConnId)
  | data (conn : ConnId) (bytes : Bytes)
  | disconnect (conn : ConnId)
  | error (conn : ConnId) (code : ℤ)
  deriving DecidableEq

def TransportEvent.conn : TransportEvent → ConnId
  | connect conn => conn
  | data conn _ => conn
  | disconnect conn => conn
  | error conn _ => conn

/-- `dispatching` is the connection in whose loop the thread is. -/
structure World where
  recvBuffers : ConnId → Option Bytes
  dispatching : Option ConnId
  pool : Pool Task

inductive ReactorAct where
  | event (e : TransportEvent)
  | round
  | start (lane : ℕ)
  | finish (lane : ℕ)
  deriving DecidableEq

namespace World

def init : World where
  recvBuffers _ := none
  dispatching := none
  pool := .init

def buffer (w : World) (conn : ConnId) : Bytes := (w.recvBuffers conn).getD []

def setBuffer (w : World) (conn : ConnId) (buffer : Option Bytes) : World :=
  { w with recvBuffers := Function.update w.recvBuffers conn buffer }

end World

section Step

variable (cfg : ReactorConfig) (M : Messages μ) (w : World)

/-- The threads of the pool. -/
def ReactorConfig.laneCount : ℕ := if cfg.handlerLanes = 0 then 0 else cfg.handlerLanes + 1

/-- Hand a task over: to its lane, or, without a pool, perform it. -/
def World.perform (t : Task) : World :=
  { w with pool := if cfg.handlerLanes = 0 then w.pool.runNow t else w.pool.submit cfg.laneIndex t }

/-- `run_event_callback`, for an event that has a handler. -/
def World.runEventCallback (conn : ConnId) (event : LifecycleEvent) : World :=
  if cfg.hasCallback event then w.perform cfg (.callback conn event) else w

/-- `handle_event`, up to the loop of `dispatch_message`. -/
def World.handleEvent : TransportEvent → World
  | .connect conn => (w.setBuffer conn (some [])).runEventCallback cfg conn .connect
  | .data conn bytes => { w.setBuffer conn (some (w.buffer conn ++ bytes)) with dispatching := some conn }
  | .disconnect conn => (w.runEventCallback cfg conn .disconnect).setBuffer conn none
  | .error conn code => (w.runEventCallback cfg conn (.error code)).setBuffer conn none

/-- What is left of the buffer after the handler of the frame at its front.  Inline the handler reads the
buffer itself, and a buffer that it has not touched is cleared. -/
def restAfter (type : UInt8) (size : ℕ) (buffer : Bytes) : Bytes :=
  if cfg.handlerLanes = 0 then ((M.decode type buffer).map Prod.snd).getD [] else buffer.drop size

/-- What the handler of the frame at the front is given: inline the whole buffer, on a lane the frame. -/
def rawOf (size : ℕ) (buffer : Bytes) : Bytes :=
  if cfg.handlerLanes = 0 then buffer else buffer.take size

def World.dispatchRound (conn : ConnId) : World :=
  let buffer := w.buffer conn
  if buffer = [] then { w with dispatching := none }
  else
    match cfg.round buffer with
    | .wait => { w with dispatching := none }
    | .skip size => w.setBuffer conn (some (buffer.drop size))
    | .malformed => { w.setBuffer conn (some []) with dispatching := none }
    | .frame type size =>
      (w.setBuffer conn (some (restAfter cfg M type size buffer))).perform cfg
        (.frame conn type (rawOf cfg size buffer))

def step : ReactorAct → Option World
  | .event e => if w.dispatching = none then some (w.handleEvent cfg e) else none
  | .round => w.dispatching.map fun conn => w.dispatchRound cfg M conn
  | .start lane =>
    if lane < cfg.laneCount then (w.pool.start lane).map fun pool => { w with pool } else none
  | .finish lane =>
    if lane < cfg.laneCount then (w.pool.finish lane).map fun pool => { w with pool } else none

end Step

end Fly.Network
