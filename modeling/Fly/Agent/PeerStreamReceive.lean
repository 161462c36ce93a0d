import Fly.Agent.PeerStreamWriter

/-!
# Receiving a stream (`PeerRpcServer::server_loop`, `feed_stream_bytes`)

The network thread appends what arrives on a connection to a buffer and cuts whole frames from its front.  The
bytes of the chunks of a stream are put together to the records of its blocks, which go into the queue of the
reader.

* `Assembly`, `feed` — putting records together, however they are spread over chunks;
* `PeerConn`, `cutFrame`, `onData` — what the thread keeps for a connection, one round of its loop, and the
  loop; what a frame demands of the stream is an `Effect`, carried out by the thread in this order;
* `PeerStream.effects` — what the frames of a stream demand, one effect for each frame;
* `onData_of_atFrame` — **however the bytes of a stream are cut into events, its effects come out in order,
  each as soon as its frame is complete.**
-/

namespace Fly.Agent

open Fly.Lib Fly.Storage List PeerFrame Nat

/-! ### Records from chunks -/

/-- `block_acc`, `p_comp` and `have_hdr` of the stream. -/
structure Assembly where
  blockAcc : Bytes := []
  pComp : ℕ := 0
  haveHdr : Bool := false
  deriving DecidableEq

namespace Assembly

/-- The header phase: sixteen bytes, then the length of the payload is known. -/
def header (a : Assembly) (data : Bytes) : Assembly × Bytes :=
  if a.haveHdr then (a, data)
  else
    let take := min data.length (16 - a.blockAcc.length)
    let acc := a.blockAcc ++ data.take take
    if acc.length < 16 then ({ a with blockAcc := acc }, data.drop take)
    else (⟨acc, ofLE ((acc.drop 4).take 4), true⟩, data.drop take)

/-- The records that are complete with the data, and what is left of it. -/
def feedFuel : ℕ → Assembly → Bytes → Assembly × List Bytes
  | 0, a, _ => (a, [])
  | fuel + 1, a, data =>
    if data = [] then (a, [])
    else
      let (a, data) := a.header data
      if !a.haveHdr then (a, [])
      else
        let take := min data.length (a.pComp - (a.blockAcc.length - 16))
        let acc := a.blockAcc ++ data.take take
        if acc.length - 16 < a.pComp then ({ a with blockAcc := acc }, [])
        else
          let rest := feedFuel fuel { a with blockAcc := [], haveHdr := false } (data.drop take)
          (rest.1, acc :: rest.2)

/-- Every round takes at least one byte. -/
def feed (a : Assembly) (data : Bytes) : Assembly × List Bytes := feedFuel data.length a data

/-- Between two records. -/
def Fresh (a : Assembly) : Prop := a.blockAcc = [] ∧ a.haveHdr = false

theorem feed_record {a : Assembly} (hfresh : a.Fresh) {hdr payload : Bytes} (hhdr : hdr.length = 16)
    (hpayload : payload.length = ofLE ((hdr.drop 4).take 4)) :
    ∃ a', a'.Fresh ∧ a.feed (hdr ++ payload) = (a', [hdr ++ payload]) := by
  obtain ⟨hacc, hhave⟩ := hfresh
  have hlength : (hdr ++ payload).length = (15 + payload.length) + 1 := by
    rw [length_append, hhdr]
    omega
  have hne : hdr ++ payload ≠ [] := by
    intro hnil
    rw [hnil] at hlength
    cases hlength
  have hheader : a.header (hdr ++ payload) = (⟨hdr, payload.length, true⟩, payload) := by
    have htake : min (hdr ++ payload).length (16 - a.blockAcc.length) = 16 := by
      rw [hlength, hacc, length_nil]
      omega
    rw [header, hhave, if_neg (by decide)]
    dsimp only
    rw [htake, hacc, nil_append, take_left' hhdr, drop_left' hhdr, if_neg (by omega), hpayload]
  have htake : min payload.length (payload.length - (hdr.length - 16)) = payload.length := by omega
  refine ⟨⟨[], payload.length, false⟩, ⟨rfl, rfl⟩, ?_⟩
  rw [feed, hlength, feedFuel, if_neg hne, hheader]
  dsimp only
  rw [htake, take_length, drop_length, if_neg (by decide)]
  have hwhole : ¬(hdr ++ payload).length - 16 < payload.length := by omega
  rw [if_neg hwhole]
  cases 15 + payload.length with
  | zero => rfl
  | succ n => rfl

end Assembly

/-! ### Frames from events -/

/-- A single-frame message, as it is handed to its handler. -/
structure PeerMessage where
  isRequest : Bool
  rpcId : ℕ
  srcWorkerId : ℕ
  status : UInt8
  payload : Bytes
  deriving DecidableEq

/-- What the thread has to do for a frame. -/
inductive Effect where
  /-- a new stream, whose reader is handed out at the end of the event -/
  | start (m : PeerStreamStart)
  | push (record : Bytes)
  | finish (m : PeerStreamEnd)
  | message (m : PeerMessage)
  /-- the end of an event: the messages are handed to their handlers -/
  | dispatch
  /-- the connection is closed -/
  | fatal
  deriving DecidableEq

/-- The buffer of a connection, and its stream if one is active. -/
structure PeerConn where
  recvBuf : Bytes := []
  stream : Option Assembly := none
  deriving DecidableEq

/-- One round of the loop: more data is needed, a frame was taken, or the connection has to be closed. -/
inductive Cut where
  | wait
  | frame (conn : PeerConn) (effects : List Effect)
  | fatal

namespace PeerConn

variable (M : StreamMessages) (s : PeerConn)

/-- `raw_len_from_total` -/
def rawLenFromTotal (totalLen : ℕ) : ℕ := totalLen - (1 + 4 + 16)

def cutMessage (isRequest : Bool) (totalLen : ℕ) : Cut :=
  let fixed := if isRequest then 25 else 18
  if s.recvBuf.length < fixed then .wait
  else if totalLen < fixed - 8 then .fatal
  else
    .frame { s with recvBuf := s.recvBuf.drop (8 + totalLen) }
      [.message {
        isRequest
        rpcId := ofBE ((s.recvBuf.drop 9).take 8)
        srcWorkerId := if isRequest then ofBE ((s.recvBuf.drop 17).take 8) else 0
        status := if isRequest then PeerRpcWireStatus.ok.code else s.recvBuf.getD 17 0
        payload := (s.recvBuf.drop fixed).take (8 + totalLen - fixed) }]

def cutStream (type : UInt8) (totalLen : ℕ) : Cut :=
  let payload := (s.recvBuf.drop 9).take (totalLen - 1)
  let rest := s.recvBuf.drop (8 + totalLen)
  if type = 66 then
    match M.decodeStart payload with
    | none => .fatal
    | some m => .frame { recvBuf := rest, stream := some {} } [.start m]
  else if type = 67 then
    match M.decodeEnd payload, s.stream with
    | some m, some _ => .frame { recvBuf := rest } [.finish m]
    | _, _ => .fatal
  else if type = 63 then
    match s.stream with
    -- a chunk outside a stream is dropped
    | none => .frame { s with recvBuf := rest } []
    | some a =>
      if rawLenFromTotal totalLen = 0 then .frame { s with recvBuf := [] } []
      else
        let fed := a.feed ((s.recvBuf.drop 29).take (rawLenFromTotal totalLen))
        .frame { recvBuf := rest, stream := some fed.1 } (fed.2.map .push)
  else .fatal

def cutFrame : Cut :=
  if s.recvBuf.length < 9 then .wait
  else
    let totalLen := getTotalSize s.recvBuf
    -- the buffer is given up after a bad header
    if totalLen < 1 then .frame { s with recvBuf := [] } []
    else if s.recvBuf.length < 8 + totalLen then .wait
    else
      let type := s.recvBuf.getD 8 0
      if type = 50 then s.cutMessage true totalLen
      else if type = 51 then s.cutMessage false totalLen
      else s.cutStream M type totalLen

def cutFuel : ℕ → PeerConn → PeerConn × List Effect
  | 0, s => (s, [])
  | fuel + 1, s =>
    match s.cutFrame M with
    | .wait => (s, [])
    | .fatal => ({}, [.fatal])
    | .frame s effects =>
      let rest := cutFuel fuel s
      (rest.1, effects ++ rest.2)

/-- A `DATA` event.  Every round but the last shortens the buffer. -/
def onData (data : Bytes) : PeerConn × List Effect :=
  let s := { s with recvBuf := s.recvBuf ++ data }
  let result := cutFuel M (s.recvBuf.length + 1) s
  (result.1, result.2 ++ [.dispatch])

end PeerConn

open PeerConn

/-! ### Whole frames -/

namespace PeerConn

variable {M : StreamMessages}

variable {fields : Bytes} {f : PeerFrame} {type : UInt8}

/-- A buffer with a whole frame at its front, as the loop sees it. -/
theorem cutFrame_of_bytes (hlen : (f.body M).length < 2 ^ 48) (rest : Bytes)
    (stream : Option Assembly) (hbody : f.body M = type :: fields)
    (hrequest : type ≠ 50) (hresponse : type ≠ 51) :
    cutFrame M ⟨f.bytes M ++ rest, stream⟩ =
      cutStream M ⟨f.bytes M ++ rest, stream⟩ type (fields.length + 1) := by
  have hlength : (f.body M).length = fields.length + 1 := by rw [hbody, length_cons]
  have hbytes : (f.bytes M ++ rest).length = 8 + (fields.length + 1) + rest.length := by
    rw [length_append, length_bytes, hlength]
  have htotal : getTotalSize (f.bytes M ++ rest) = fields.length + 1 := by
    have hparse := parseFrameHeader_make (show 0 < (f.body M).length by omega) hlen (f.body M ++ rest)
    rw [getTotalSize, if_neg (by omega), bytes, header, append_assoc, hparse, hlength]
    rfl
  have htype : (f.bytes M ++ rest).getD 8 0 = type := by
    rw [bytes, hbody, append_assoc, getD_eq_getElem?_getD,
      List.getElem?_append_right (by rw [length_header]), length_header]
    rfl
  rw [cutFrame, if_neg (by dsimp only; omega)]
  dsimp only
  rw [htotal, if_neg (by omega), if_neg (by omega), htype, if_neg hrequest, if_neg hresponse]

/-- A buffer with less than the next frame. -/
theorem cutFrame_of_short (hlen : (f.body M).length < 2 ^ 48) {buf more rest : Bytes}
    (hbuf : buf ++ more = f.bytes M ++ rest) (hshort : buf.length < (f.bytes M).length)
    (stream : Option Assembly) : cutFrame M ⟨buf, stream⟩ = .wait := by
  have hpos : 0 < (f.body M).length := length_pos_iff.mpr f.body_ne_nil
  have hprefix : buf <+: f.bytes M :=
    prefix_of_prefix_length_le ⟨more, hbuf⟩ (prefix_append _ _) hshort.le
  obtain ⟨tail, htail⟩ := hprefix
  rw [cutFrame]
  dsimp only
  split
  · rfl
  rename_i hnine
  have htotal : getTotalSize buf = (f.body M).length := by
    have hfront : buf.take 8 = toBE 8 (makeFrameHeader (f.body M).length) := by
      have htake : (f.bytes M).take 8 = toBE 8 (makeFrameHeader (f.body M).length) := by
        rw [bytes, take_left' f.length_header, header]
      rw [← htake, ← htail, take_append_of_le_length (by omega)]
    have hparse := parseFrameHeader_make hpos hlen (buf.drop 8)
    rw [← hfront, take_append_drop] at hparse
    rw [getTotalSize, if_neg (by omega), hparse]
    rfl
  rw [length_bytes] at hshort
  rw [htotal, if_neg (by omega), if_pos hshort]

theorem payload_of_bytes (hbody : f.body M = type :: fields)
    (rest : Bytes) : ((f.bytes M ++ rest).drop 9).take (fields.length + 1 - 1) = fields := by
  have hdrop : (f.bytes M ++ rest).drop 9 = fields ++ rest := by
    have hsplit : f.bytes M ++ rest = (f.header M ++ [type]) ++ (fields ++ rest) := by
      rw [bytes, hbody]
      simp
    rw [hsplit, drop_left' (by rfl)]
  rw [hdrop, Nat.add_sub_cancel, take_left]

theorem rest_of_bytes (hbody : f.body M = type :: fields)
    (rest : Bytes) : (f.bytes M ++ rest).drop (8 + (fields.length + 1)) = rest := by
  refine drop_left' ?_
  rw [length_bytes, hbody, length_cons]

theorem length_body_start (m : PeerStreamStart) : ((streamStart m).body M).length < 2 ^ 48 := by
  have hshort := M.length_encodeStart m
  show (M.encodeStart m).length + 1 < 2 ^ 48
  omega

theorem length_body_end (m : PeerStreamEnd) : ((streamEnd m).body M).length < 2 ^ 48 := by
  have hshort := M.length_encodeEnd m
  show (M.encodeEnd m).length + 1 < 2 ^ 48
  omega

theorem length_body_block {b : BlockFrame} (hpayload : b.payload.length = ofLE ((b.blkHdr.drop 4).take 4)) :
    (b.frame.body M).length < 2 ^ 48 := by
  have hsmall := ofLE_take_lt (b.blkHdr.drop 4) 4
  show (63 :: (chunkFields b.offset ++ (b.blkHdr ++ b.payload))).length < 2 ^ 48
  rw [length_cons, length_append, length_append, length_chunkFields, b.length_blkHdr]
  omega

theorem cutFrame_start (m : PeerStreamStart) (rest : Bytes) (stream : Option Assembly) :
    cutFrame M ⟨(streamStart m).bytes M ++ rest, stream⟩ =
      .frame { recvBuf := rest, stream := some {} } [.start m] := by
  have hbody : (streamStart m).body M = 66 :: M.encodeStart m := rfl
  rw [cutFrame_of_bytes (length_body_start m) rest stream hbody (by decide) (by decide), cutStream]
  rw [payload_of_bytes hbody, rest_of_bytes hbody, if_pos rfl, M.decode_encodeStart]

theorem cutFrame_end (m : PeerStreamEnd) (rest : Bytes) (a : Assembly) :
    cutFrame M ⟨(streamEnd m).bytes M ++ rest, some a⟩ = .frame { recvBuf := rest } [.finish m] := by
  have hbody : (streamEnd m).body M = 67 :: M.encodeEnd m := rfl
  rw [cutFrame_of_bytes (length_body_end m) rest _ hbody (by decide) (by decide), cutStream]
  rw [payload_of_bytes hbody, rest_of_bytes hbody, if_neg (by decide), if_pos rfl, M.decode_encodeEnd]

theorem cutFrame_block (b : BlockFrame) (hpayload : b.payload.length = ofLE ((b.blkHdr.drop 4).take 4))
    (rest : Bytes) {a : Assembly} (hfresh : a.Fresh) :
    ∃ a' : Assembly, a'.Fresh ∧ cutFrame M ⟨b.frame.bytes M ++ rest, some a⟩ =
      .frame { recvBuf := rest, stream := some a' } [.push b.raw] := by
  obtain ⟨a', hfresh', hfed⟩ := a.feed_record hfresh b.length_blkHdr hpayload
  have hbody : b.frame.body M = 63 :: (chunkFields b.offset ++ b.raw) := rfl
  have hraw : b.raw.length = 16 + b.payload.length := by
    rw [BlockFrame.raw, length_append, b.length_blkHdr]
  have hfields : (chunkFields b.offset ++ b.raw).length = 20 + b.raw.length := by
    rw [length_append, length_chunkFields]
  have htotal : rawLenFromTotal ((chunkFields b.offset ++ b.raw).length + 1) = b.raw.length := by
    rw [rawLenFromTotal, hfields]
    omega
  have hdrop : (b.frame.bytes M ++ rest).drop 29 = b.raw ++ rest := by
    have hsplit : b.frame.bytes M ++ rest =
        (b.frame.header M ++ (63 :: chunkFields b.offset)) ++ (b.raw ++ rest) := by
      rw [bytes, hbody]
      simp
    rw [hsplit, drop_left' (by rw [length_append, length_header, length_cons, length_chunkFields])]
  refine ⟨a', hfresh', ?_⟩
  rw [cutFrame_of_bytes (length_body_block hpayload) rest _ hbody (by decide) (by decide), cutStream]
  dsimp only
  rw [rest_of_bytes hbody, if_neg (by decide), if_neg (by decide), if_pos rfl, htotal, if_neg (by omega),
    hdrop, take_left]
  rw [BlockFrame.raw, hfed]
  rfl

end PeerConn

/-! ### The frames of a stream -/

namespace PeerStream

variable (M : StreamMessages) (c : Codecs) (s : PeerStream)

/-- What the frames of the stream demand, one effect for each. -/
def effects : List Effect := .start s.start :: (s.records c).map .push ++ [.finish (s.trueCounts c)]

/-- The connection after `handled` frames of the stream: the buffer begins with the next one, and the stream
is active between `START` and `END`. -/
structure AtFrame (handled : ℕ) (conn : PeerConn) (rest : Bytes) : Prop where
  le : handled ≤ (s.records c).length + 2
  bytes : conn.recvBuf ++ rest = ((s.frames c).drop handled).flatMap (bytes M)
  active : 1 ≤ handled → handled ≤ (s.records c).length + 1 → ∃ a, conn.stream = some a ∧ a.Fresh
  idle : ¬(1 ≤ handled ∧ handled ≤ (s.records c).length + 1) → conn.stream = none

variable {M c s} {handled : ℕ} {conn : PeerConn} {rest : Bytes}

section

variable (hround : c.RoundTrips s.compressionType)

include hround

/-- A frame that carries a record has its length in the header. -/
theorem length_payload_of_record {b : BlockFrame}
    (hb : b.raw ∈ s.records c) : b.payload.length = ofLE ((b.blkHdr.drop 4).take 4) := by
  obtain ⟨x, hx, hraw⟩ := mem_map.mp hb
  obtain ⟨header, payload, hsplit, hheader, hpayload, -⟩ := isBlock_record hround hx
  rw [hraw] at hsplit
  obtain ⟨rfl, rfl⟩ := append_inj hsplit (b.length_blkHdr.trans hheader.symm)
  exact hpayload

/-- The next frame, with what it demands: it is short, and the loop takes it. -/
theorem frame_at (hlt : handled < (s.records c).length + 2) :
    ∃ f e, (s.frames c).drop handled = f :: (s.frames c).drop (handled + 1) ∧
      (s.effects c).drop handled = e :: (s.effects c).drop (handled + 1) ∧
      (f.body M).length < 2 ^ 48 ∧
      ∀ (stream : Option Assembly) (more : Bytes),
        (1 ≤ handled → handled ≤ (s.records c).length + 1 → ∃ a, stream = some a ∧ a.Fresh) →
        ∃ stream', cutFrame M ⟨f.bytes M ++ more, stream⟩ = .frame ⟨more, stream'⟩ [e] ∧
          (1 ≤ handled + 1 → handled + 1 ≤ (s.records c).length + 1 → ∃ a, stream' = some a ∧ a.Fresh) ∧
          (¬(1 ≤ handled + 1 ∧ handled + 1 ≤ (s.records c).length + 1) → stream' = none) := by
  obtain ⟨sent, hframes, hsent⟩ := frames_eq hround
  have hcount : sent.length = (s.records c).length := by rw [← hsent, length_map]
  rw [hframes, effects]
  cases handled with
  | zero =>
    refine ⟨_, _, rfl, rfl, length_body_start s.start, fun stream more _ => ?_⟩
    refine ⟨some {}, cutFrame_start s.start more stream, fun _ _ => ⟨{}, rfl, rfl, rfl⟩, ?_⟩
    omega
  | succ i =>
    rw [cons_append, cons_append, drop_succ_cons, drop_succ_cons, drop_succ_cons, drop_succ_cons]
    rcases lt_or_ge i (s.records c).length with hrecord | hend
    · -- a block
      have hraw : sent[i].raw = (s.records c)[i] := by
        simp only [← hsent, getElem_map]
      have hpayload := length_payload_of_record hround (b := sent[i])
        (by rw [hraw]; exact getElem_mem hrecord)
      refine ⟨sent[i].frame, .push (s.records c)[i], ?_, ?_, length_body_block hpayload, ?_⟩
      · rw [drop_eq_getElem_cons (by rw [length_append, length_map]; omega),
          getElem_append_left (by rw [length_map]; omega), getElem_map]
      · rw [drop_eq_getElem_cons (by rw [length_append, length_map]; omega),
          getElem_append_left (by rw [length_map]; omega), getElem_map]
      · intro stream more hactive
        obtain ⟨a, rfl, hfresh⟩ := hactive (by omega) (by omega)
        obtain ⟨a', hfresh', hcut⟩ := cutFrame_block sent[i] hpayload more hfresh
        rw [hraw] at hcut
        refine ⟨some a', hcut, fun _ _ => ⟨a', rfl, hfresh'⟩, ?_⟩
        omega
    · -- the end
      have hi : i = (s.records c).length := by omega
      subst hi
      refine ⟨.streamEnd (s.trueCounts c), .finish (s.trueCounts c), ?_, ?_,
        length_body_end (s.trueCounts c), ?_⟩
      · simp [hcount]
      · simp
      · intro stream more hactive
        obtain ⟨a, rfl, -⟩ := hactive (by omega) (by omega)
        refine ⟨none, cutFrame_end (s.trueCounts c) more a, ?_, fun _ => rfl⟩
        omega

/-- **A round of the loop** takes the next frame of the stream and no other, or waits because it is not
complete. -/
theorem cutFrame_of_atFrame (hat : s.AtFrame M c handled conn rest)
    (hlt : handled < (s.records c).length + 2) :
    (conn.cutFrame M = .wait ∧ rest ≠ []) ∨ ∃ e conn', conn.cutFrame M = .frame conn' [e] ∧
        (s.effects c).drop handled = e :: (s.effects c).drop (handled + 1) ∧
        conn'.recvBuf.length < conn.recvBuf.length ∧ s.AtFrame M c (handled + 1) conn' rest := by
  obtain ⟨f, e, hframe, heffect, hlen, hcut⟩ := frame_at (M := M) hround hlt
  obtain ⟨buf, stream⟩ := conn
  have hbytes : buf ++ rest = f.bytes M ++ ((s.frames c).drop (handled + 1)).flatMap (bytes M) := by
    have hall := hat.bytes
    rwa [hframe, flatMap_cons] at hall
  rcases lt_or_ge buf.length (f.bytes M).length with hshort | hlong
  · refine .inl ⟨cutFrame_of_short hlen hbytes hshort stream, ?_⟩
    rintro rfl
    have hlength := congrArg length hbytes
    rw [append_nil, length_append] at hlength
    omega
  · obtain ⟨more, rfl⟩ : f.bytes M <+: buf :=
      prefix_of_prefix_length_le (prefix_append _ _) ⟨rest, hbytes⟩ hlong
    obtain ⟨stream', hround', hactive, hidle⟩ := hcut stream more hat.active
    refine .inr ⟨e, ⟨more, stream'⟩, hround', heffect, ?_, ⟨hlt, ?_, hactive, hidle⟩⟩
    · show more.length < (f.bytes M ++ more).length
      rw [length_append, length_bytes]
      omega
    · rw [append_assoc] at hbytes
      exact append_cancel_left hbytes

/-- Behind the last frame there is nothing to take. -/
theorem cutFrame_of_end (hat : s.AtFrame M c ((s.records c).length + 2) conn rest) :
    conn.cutFrame M = .wait := by
  obtain ⟨sent, hframes, hsent⟩ := frames_eq hround
  have hcount : sent.length = (s.records c).length := by rw [← hsent, length_map]
  have hempty : (s.frames c).drop ((s.records c).length + 2) = [] := by
    refine drop_of_length_le ?_
    rw [hframes]
    simp [hcount]
  have hbytes := hat.bytes
  rw [hempty, flatMap_nil] at hbytes
  have hbuf := append_eq_nil_iff.mp hbytes
  rw [cutFrame, hbuf.1]
  rfl

theorem cutFuel_of_atFrame {fuel : ℕ}
    (hat : s.AtFrame M c handled conn rest) (hfuel : conn.recvBuf.length < fuel) :
    ∃ handled' conn', handled ≤ handled' ∧ cutFuel M fuel conn =
        (conn', ((s.effects c).take handled').drop handled) ∧
      s.AtFrame M c handled' conn' rest ∧ (rest = [] → handled' = (s.records c).length + 2) := by
  induction fuel generalizing handled conn with
  | zero => omega
  | succ fuel ih =>
    have hnone : ((s.effects c).take handled).drop handled = [] :=
      drop_of_length_le (length_take_le _ _)
    have hle := hat.le
    rcases lt_or_ge handled ((s.records c).length + 2) with hlt | hge
    · rcases cutFrame_of_atFrame hround hat hlt with ⟨hwait, hrest⟩ |
        ⟨e, next, hcut, heffect, hshorter, hnext⟩
      · refine ⟨handled, conn, le_rfl, ?_, hat, fun hnil => absurd hnil hrest⟩
        rw [cutFuel, hwait, hnone]
      obtain ⟨handled', conn', hmore, hfuel', hat', hall⟩ := ih hnext (by omega)
      refine ⟨handled', conn', by omega, ?_, hat', hall⟩
      have hdrop : ((s.effects c).take handled').drop handled =
          e :: ((s.effects c).take handled').drop (handled + 1) := by
        rw [drop_take, heffect, drop_take, show handled' - handled = handled' - (handled + 1) + 1 by omega,
          take_succ_cons]
      rw [cutFuel, hcut]
      dsimp only
      rw [hfuel', hdrop]
      rfl
    · have hend : handled = (s.records c).length + 2 := by omega
      refine ⟨handled, conn, le_rfl, ?_, hat, fun _ => hend⟩
      rw [hend] at hat
      rw [cutFuel, cutFrame_of_end hround hat, hnone]

/-- **An event with the next bytes of the stream**, however many: the effects of the frames that are complete
with it come out, in order and each once; with the last byte they are all out. -/
theorem onData_of_atFrame {data : Bytes} (hat : s.AtFrame M c handled conn (data ++ rest)) :
    ∃ handled' conn', handled ≤ handled' ∧ conn.onData M data =
        (conn', ((s.effects c).take handled').drop handled ++ [.dispatch]) ∧
      s.AtFrame M c handled' conn' rest ∧ (rest = [] → handled' = (s.records c).length + 2) := by
  have hmore : s.AtFrame M c handled { conn with recvBuf := conn.recvBuf ++ data } rest :=
    ⟨hat.le, by rw [append_assoc]; exact hat.bytes, hat.active, hat.idle⟩
  obtain ⟨handled', conn', hle, hcut, hat', hall⟩ := cutFuel_of_atFrame hround hmore (lt_succ_self _)
  refine ⟨handled', conn', hle, ?_, hat', hall⟩
  rw [onData]
  rw [hcut]

end

end PeerStream

end Fly.Agent
