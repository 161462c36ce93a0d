import Fly.Agent.PeerSends
import Fly.Storage.RoundTrip

/-!
# Writing a stream (`PeerStreamWriter`)

A large payload goes to a peer as a stream: a message that opens it, its blocks, each in a frame of its own,
and a message with what the writer has counted.  The caller writes in any pieces; a thread of the writer
cuts them into blocks, compresses these and sends them.

* `PeerStreamWriter` — what the thread keeps for sending: `emit`, `sendBlockFrame`, `flushPendingBlock`;
* `enqueue`, `compressLoop` — the queue of plaintext and the thread;
* `PeerStream`, `PeerStream.frames` — a stream by what is written to it, and the frames that are sent;
* `frames_eq` — **they are `START`, one chunk for each block in order, and `END` with the true counts.**
-/

namespace Fly.Agent

open Fly.Lib Fly.Storage List BlockHeader Nat UInt64 WritePipeline BlockFrame

def BlockFrame.raw (b : BlockFrame) : Bytes := b.blkHdr ++ b.payload

/-- What the thread keeps: the header of the block that it is about to send, as far as it has been emitted. -/
structure PeerStreamWriter where
  blkHdr : Bytes := []
  length_blkHdr : blkHdr.length ≤ 16 := by decide
  frameOff : UInt64 := 0
  sendOk : Bool := true
  sent : List BlockFrame := []

namespace PeerStreamWriter

variable (w : PeerStreamWriter)

/-- The size of a block. -/
def kFrameBytes : ℕ := 4 * 1024 * 1024

/-- The bound of the queue of plaintext. -/
def kQueueBytes : ℕ := 4 * 1024 * 1024

def sendBlockFrame (h : w.blkHdr.length = 16) (payload : Bytes) : PeerStreamWriter :=
  if w.sendOk then
    { frameOff := w.frameOff + .ofNat (16 + payload.length)
      sent := w.sent ++ [⟨w.frameOff, w.blkHdr, payload, h⟩] }
  else { frameOff := w.frameOff, sendOk := w.sendOk, sent := w.sent }

/-- What the pipeline emits fills the header first; what comes when it is full is the payload. -/
def emit (d : Bytes) : PeerStreamWriter :=
  if hlt : w.blkHdr.length < 16 then
    let take := min d.length (16 - w.blkHdr.length)
    if hrest : d.drop take = [] then
      { w with
        blkHdr := w.blkHdr ++ d.take take
        length_blkHdr := by
          rw [length_append, length_take]
          omega }
    else
      sendBlockFrame
        { w with
          blkHdr := w.blkHdr ++ d.take take
          length_blkHdr := by
            rw [length_append, length_take]
            omega }
        (by
          have hpos := length_pos_iff.mpr hrest
          rw [length_drop] at hpos
          rw [length_append, length_take]
          omega)
        (d.drop take)
  else
    sendBlockFrame w (by have := w.length_blkHdr; omega) d

/-- `BlockHeaderStage`: the fields of the header one by one, and the stored bytes if there are any. -/
def pieces (b : StoredBlock) : List Bytes :=
  [toLE 4 b.header.uncSize, toLE 4 b.header.compSize, toLE 8 b.header.crc.toNat]
    ++ if b.payload = [] then [] else [b.payload]

def emitBlock (b : StoredBlock) : PeerStreamWriter := (pieces b).foldl emit w

/-- A header without payload is sent by itself; a part of a header aborts the stream. -/
def flushPendingBlock : PeerStreamWriter :=
  if w.blkHdr = [] then w
  else if h : w.blkHdr.length = 16 then w.sendBlockFrame h []
  else { frameOff := w.frameOff, sendOk := false, sent := w.sent }

/-! ### The thread -/

def enqueueFuel : ℕ → Bytes → List Bytes
  | 0, _ => []
  | fuel + 1, data =>
    if data = [] then [] else data.take kQueueBytes :: enqueueFuel fuel (data.drop kQueueBytes)

/-- The pieces in which a call of `write` enters the queue. -/
def enqueue (data : Bytes) : List Bytes := enqueueFuel data.length data

/-- The pipeline after all that came from the queue. -/
def pipeline (c : Codecs) (type : CompressionType) (chunks : List Bytes) : WritePipeline :=
  finish c (c.compressor type) (-1)
    (chunks.foldl (fun p chunk => write c (c.compressor type) (-1) kFrameBytes chunk p) {})

/-- The thread: the blocks of the pipeline are emitted as they are complete, and the rest is flushed. -/
def compressLoop (c : Codecs) (type : CompressionType) (chunks : List Bytes) :
    WritePipeline × PeerStreamWriter :=
  let p := pipeline c type chunks
  (p, ((p.blocks.map (stored c (c.compressor type) (-1))).foldl emitBlock {}).flushPendingBlock)

end PeerStreamWriter

open PeerStreamWriter

/-- A stream, by the calls of `write`. -/
structure PeerStream where
  rpcId : UInt64
  direction : PeerStreamDirection
  compressionType : CompressionType
  writes : List Bytes

namespace PeerStream

variable (c : Codecs) (s : PeerStream)

def payload : Bytes := s.writes.flatten

def start : PeerStreamStart := ⟨s.rpcId, s.direction, s.compressionType⟩

/-- What the thread of the writer ends with. -/
def thread : WritePipeline × PeerStreamWriter := compressLoop c s.compressionType (s.writes.flatMap enqueue)

def blocks : List Bytes := (s.thread c).1.blocks.map Prod.fst

def records : List Bytes :=
  (s.thread c).1.blocks.map fun b => (stored c (c.compressor s.compressionType) (-1) b).bytes

/-- What the writer has counted. -/
def finalCounts : PeerStreamEnd where
  rpcId := s.rpcId
  totalUncompressed := ofNat (s.thread c).1.totalUncompressed
  chunkCount := .ofNat (s.thread c).1.chunkCount
  consumed := (s.thread c).2.frameOff

/-- What there is to count. -/
def trueCounts : PeerStreamEnd where
  rpcId := s.rpcId
  totalUncompressed := ofNat s.payload.length
  chunkCount := .ofNat (s.records c).length
  consumed := ofNat (s.records c).flatten.length

/-- The frames of the stream; `END` is not sent after an abort. -/
def frames : List PeerFrame :=
  .streamStart s.start :: (s.thread c).2.sent.map frame
    ++ if (s.thread c).2.sendOk then [.streamEnd (s.finalCounts c)] else []

end PeerStream

/-! ### What is sent -/

namespace PeerStreamWriter

theorem flatten_enqueueFuel {fuel : ℕ} {data : Bytes} (hfuel : data.length ≤ fuel) :
    (enqueueFuel fuel data).flatten = data := by
  induction fuel generalizing data with
  | zero =>
    rw [length_eq_zero_iff.mp (le_zero.mp hfuel)]
    rfl
  | succ fuel ih =>
    unfold enqueueFuel
    split
    · next hnil =>
      rw [hnil]
      rfl
    · next hne =>
      have hshort : (data.drop kQueueBytes).length ≤ fuel := by
        have hqueue : 0 < kQueueBytes := by decide
        rw [length_drop]
        omega
      rw [flatten_cons, ih hshort, take_append_drop]

/-- The queue keeps the bytes and their order. -/
theorem flatten_flatMap_enqueue (writes : List Bytes) :
    (writes.flatMap enqueue).flatten = writes.flatten := by
  induction writes with
  | nil => rfl
  | cons data writes ih =>
    rw [flatMap_cons, flatten_append, ih, enqueue, flatten_enqueueFuel le_rfl, flatten_cons]

section Pipeline

variable (c : Codecs) (type : CompressionType)

theorem foldl_write (chunks : List Bytes) :
    let p := chunks.foldl (fun p chunk => write c (c.compressor type) (-1) kFrameBytes chunk p) {}
    p.Describes c (c.compressor type) (-1) chunks.flatten ∧ p.Sized kFrameBytes := by
  induction chunks using reverseRecOn with
  | nil =>
    refine ⟨⟨rfl, rfl, rfl, rfl, rfl, rfl, ?_⟩, ?_, ?_⟩
    · exact nofun
    · show 0 < kFrameBytes
      decide
    · exact nofun
  | append_singleton chunks chunk ih =>
    rw [foldl_append, foldl_cons, foldl_nil, flatten_append, flatten_singleton]
    exact ih.1.writeFuel (by decide) chunk ih.2 le_rfl

end Pipeline

section Emit

variable {w : PeerStreamWriter} {d : Bytes}

theorem emit_of_le (hlt : w.blkHdr.length < 16) (hfits : w.blkHdr.length + d.length ≤ 16) :
    (emit w d).blkHdr = w.blkHdr ++ d ∧ (emit w d).frameOff = w.frameOff ∧
      (emit w d).sendOk = w.sendOk ∧ (emit w d).sent = w.sent := by
  have htake : min d.length (16 - w.blkHdr.length) = d.length := by omega
  have hrest : d.drop (min d.length (16 - w.blkHdr.length)) = [] := by rw [htake, drop_length]
  unfold emit
  rw [dif_pos hlt]
  rw [dif_pos hrest]
  refine ⟨?_, rfl, rfl, rfl⟩
  show w.blkHdr ++ d.take _ = _
  rw [htake, take_length]

theorem emit_of_full (hfull : w.blkHdr.length = 16) : emit w d = sendBlockFrame w hfull d := by
  unfold emit
  rw [dif_neg (by omega)]

/-- A block that has a payload is sent in one frame. -/
theorem emitBlock_eq (hempty : w.blkHdr = []) (hok : w.sendOk = true) {b : StoredBlock}
    (hpayload : b.payload ≠ []) :
    (emitBlock w b).blkHdr = [] ∧ (emitBlock w b).sendOk = true ∧
      (emitBlock w b).frameOff = w.frameOff + .ofNat b.bytes.length ∧
      ∃ f : BlockFrame, (emitBlock w b).sent = w.sent ++ [f] ∧ f.raw = b.bytes := by
  have hpieces : emitBlock w b = emit (emit (emit (emit w (toLE 4 b.header.uncSize))
      (toLE 4 b.header.compSize)) (toLE 8 b.header.crc.toNat)) b.payload := by
    rw [emitBlock, pieces, if_neg hpayload]
    rfl
  -- the three fields fill the header
  obtain ⟨hhdr₁, hoff₁, hok₁, hsent₁⟩ := emit_of_le (w := w) (d := toLE 4 b.header.uncSize)
    (by rw [hempty]; decide) (by rw [hempty, length_toLE]; decide)
  generalize emit w (toLE 4 b.header.uncSize) = w₁ at hpieces hhdr₁ hoff₁ hok₁ hsent₁
  have hlen₁ : w₁.blkHdr.length = 4 := by rw [hhdr₁, hempty, nil_append, length_toLE]
  obtain ⟨hhdr₂, hoff₂, hok₂, hsent₂⟩ := emit_of_le (w := w₁) (d := toLE 4 b.header.compSize)
    (by omega) (by rw [hlen₁, length_toLE]; decide)
  generalize emit w₁ (toLE 4 b.header.compSize) = w₂ at hpieces hhdr₂ hoff₂ hok₂ hsent₂
  have hlen₂ : w₂.blkHdr.length = 8 := by rw [hhdr₂, length_append, hlen₁, length_toLE]
  obtain ⟨hhdr₃, hoff₃, hok₃, hsent₃⟩ := emit_of_le (w := w₂) (d := toLE 8 b.header.crc.toNat)
    (by omega) (by rw [hlen₂, length_toLE])
  generalize emit w₂ (toLE 8 b.header.crc.toNat) = w₃ at hpieces hhdr₃ hoff₃ hok₃ hsent₃
  have hlen₃ : w₃.blkHdr.length = 16 := by rw [hhdr₃, length_append, hlen₂, length_toLE]
  have hheader : w₃.blkHdr = b.header.bytes := by
    rw [hhdr₃, hhdr₂, hhdr₁, hempty, BlockHeader.bytes]
    simp [pack]
  have hsend : w₃.sendOk = true := by rw [hok₃, hok₂, hok₁, hok]
  rw [hpieces, emit_of_full hlen₃, sendBlockFrame, if_pos hsend]
  refine ⟨rfl, rfl, ?_, ⟨w₃.frameOff, w₃.blkHdr, b.payload, hlen₃⟩, ?_, ?_⟩
  · rw [hoff₃, hoff₂, hoff₁, StoredBlock.length_bytes]
  · rw [hsent₃, hsent₂, hsent₁]
  · show w₃.blkHdr ++ b.payload = _
    rw [hheader]
    rfl

/-- Blocks with payloads are sent one by one, and nothing is left over. -/
theorem foldl_emitBlock {bs : List StoredBlock} (hpayload : ∀ b ∈ bs, b.payload ≠ []) :
    let w := bs.foldl emitBlock {}
    w.blkHdr = [] ∧ w.sendOk = true ∧ w.frameOff = UInt64.ofNat (bs.map StoredBlock.bytes).flatten.length ∧
      w.sent.map raw = bs.map StoredBlock.bytes := by
  induction bs using List.reverseRecOn with
  | nil => exact ⟨rfl, rfl, rfl, rfl⟩
  | append_singleton bs b ih =>
    obtain ⟨hhdr, hok, hoff, hsent⟩ := ih fun x hx => hpayload x (mem_append_left _ hx)
    rw [foldl_append, foldl_cons, foldl_nil]
    obtain ⟨hhdr', hok', hoff', f, hsent', hraw⟩ := emitBlock_eq hhdr hok
      (hpayload b (mem_append_right _ (mem_singleton_self b)))
    refine ⟨hhdr', hok', ?_, ?_⟩
    · rw [hoff', hoff, ← UInt64.ofNat_add]
      simp
    · rw [hsent', map_append, hsent, map_append, map_singleton, map_singleton, hraw]

end Emit

end PeerStreamWriter

namespace PeerStream

variable {c : Codecs} {s : PeerStream}

theorem describes_thread : (s.thread c).1.Describes c (c.compressor s.compressionType) (-1) s.payload ∧
      (s.thread c).1.buf = [] ∧ ∀ b ∈ (s.thread c).1.blocks, b.1.length ≤ kFrameBytes := by
  obtain ⟨hdescribes, hsized⟩ := foldl_write c s.compressionType (s.writes.flatMap enqueue)
  rw [flatten_flatMap_enqueue] at hdescribes
  exact hdescribes.finish hsized

theorem flatten_blocks : (s.blocks c).flatten = s.payload := by
  obtain ⟨hdescribes, hbuf, -⟩ := describes_thread (c := c) (s := s)
  have hdata := hdescribes.data
  rwa [hbuf, append_nil] at hdata

/-- A record is the block it was made from. -/
theorem isBlock_record {b : Bytes × Bool} (hround : c.RoundTrips s.compressionType)
    (hb : b ∈ (s.thread c).1.blocks) :
    IsBlock (decodeBlock c s.compressionType)
      (stored c (c.compressor s.compressionType) (-1) b).bytes b.1 := by
  obtain ⟨hdescribes, -, hsized⟩ := describes_thread (c := c) (s := s)
  have hlength : b.1.length ≤ 4 * 1024 * 1024 := hsized b hb
  have hpayload : (stored c (c.compressor s.compressionType) (-1) b).payload.length ≤ b.1.length :=
    length_payload_le
  generalize hstored : stored c (c.compressor s.compressionType) (-1) b = block at hpayload ⊢
  have hunc : block.header.uncSize = b.1.length := by
    rw [← hstored]
    exact mod_eq_of_lt (by omega)
  have hcomp : block.header.compSize = block.payload.length := by
    have hmod : block.header.compSize = block.payload.length % 2 ^ 32 := by
      rw [← hstored]
      rfl
    rw [hmod, mod_eq_of_lt (by omega)]
  have hread : read block.header.bytes = block.header := by
    have hback := read_bytes_append (h := block.header) (by omega) (by omega) []
    rwa [append_nil] at hback
  refine ⟨block.header.bytes, block.payload, rfl, length_bytes _, ?_, ?_, ?_, ?_⟩
  · rw [hread, hcomp]
  · rw [hread, hunc]
    show _ ≤ 64 * 1024 * 1024
    omega
  · rw [hread, hcomp]
    show _ ≤ 64 * 1024 * 1024
    omega
  · rw [hread, ← hstored]
    exact decodeBlock_storeBlock hround (hdescribes.nonempty b hb) (by omega)

theorem length_record_le {record : Bytes} (h : record ∈ s.records c) : record.length ≤ 16 + kFrameBytes := by
  obtain ⟨b, hb, rfl⟩ := mem_map.mp h
  have hplain : b.1.length ≤ kFrameBytes := describes_thread.2.2 b hb
  have hpayload : (WritePipeline.stored c (c.compressor s.compressionType) (-1) b).payload.length ≤
      b.1.length :=
    length_payload_le
  rw [StoredBlock.length_bytes]
  omega

theorem sent_thread (hround : c.RoundTrips s.compressionType) : (s.thread c).2.sendOk = true ∧
      (s.thread c).2.frameOff = UInt64.ofNat (s.records c).flatten.length ∧
      (s.thread c).2.sent.map raw = s.records c := by
  obtain ⟨hdescribes, -, -⟩ := describes_thread (c := c) (s := s)
  have hpayload : ∀ b ∈ (s.thread c).1.blocks.map
      (stored c (c.compressor s.compressionType) (-1)), b.payload ≠ [] := by
    intro b hb
    obtain ⟨x, hx, rfl⟩ := mem_map.mp hb
    exact payload_ne_nil hround (hdescribes.nonempty x hx)
  obtain ⟨hhdr, hok, hoff, hsent⟩ := foldl_emitBlock hpayload
  rw [map_map] at hoff hsent
  have hthread : (s.thread c).2 = ((s.thread c).1.blocks.map
      (stored c (c.compressor s.compressionType) (-1))).foldl emitBlock {} := by
    show flushPendingBlock _ = _
    exact if_pos hhdr
  rw [hthread]
  exact ⟨hok, hoff, hsent⟩

/-- **What is sent**: `START`, the blocks in order, each in a frame of its own, and `END` with the true
counts. -/
theorem frames_eq (hround : c.RoundTrips s.compressionType) : ∃ sent : List BlockFrame, s.frames c =
        .streamStart s.start :: sent.map frame ++ [.streamEnd (s.trueCounts c)] ∧
      sent.map raw = s.records c := by
  obtain ⟨hok, hoff, hsent⟩ := sent_thread hround
  obtain ⟨hdescribes, -, -⟩ := describes_thread (c := c) (s := s)
  refine ⟨(s.thread c).2.sent, ?_, hsent⟩
  have htotal : UInt64.ofNat (s.thread c).1.totalUncompressed = UInt64.ofNat s.payload.length := by
    have hdata : ((s.thread c).1.blocks.map Prod.fst).flatten = s.payload := flatten_blocks
    rw [hdescribes.total, hdata]
    exact UInt64.ofNat_mod_size
  have hcount : UInt32.ofNat (s.thread c).1.chunkCount = UInt32.ofNat (s.records c).length := by
    rw [hdescribes.count, records, length_map]
    exact UInt32.ofNat_mod_size
  rw [frames, if_pos hok, finalCounts, htotal, hcount, hoff, trueCounts]

end PeerStream

end Fly.Agent
