import Fly.Storage.Streaming

/-!
# Receiving a record from the network (`network_chunk_source.cpp`)

A record arrives in frames, which know nothing of its blocks.  A thread of the receiver cuts the frames into
blocks again, checks each block and hands it on in order; a block whose checksum does not match is asked for
once more, and what lies behind it waits.  The consumer pulls the bytes from a queue of bounded size.

* `Delivery` — what the thread keeps for handing on: `deliverBytes`, `drainPending`, `consumeBlock`;
* `NetworkChunkSource` — with the state of the block parser: `feedBlocks`, `feedFrame`;
* `recvLoop` — the thread, on what arrives;
* `feedBlocks_spec` — **however a sequence of blocks is cut into frames, each is consumed once and whole, at
  its own offset.**

What the thread does with the queue depends on nothing but what arrives; so `recvLoop` gives the list of
pushes and the end, and `Fly.Storage.ByteQueue` is the thread putting them in, step by step, against a
consumer.
-/

namespace Fly.Storage

open Fly.Lib List BlockHeader Nat

/-- A `DATA_CHUNK` frame; a checksum of `0` was not computed by the sender. -/
structure ChunkFrame where
  offset : ℕ
  crc : UInt64 := 0
  raw : Bytes

/-- What `read_one_frame` finds on the connection, as long as it is not lost. -/
inductive Arrival where
  | chunk (frame : ChunkFrame)
  | digest
  /-- a frame header whose check fails -/
  | badHeader

/-! ### Handing on -/

/-- What the thread keeps for handing on bytes in order. -/
structure Delivery where
  received : ℕ := 0
  nextOff : ℕ := 0
  /-- bytes that are here, but not in order yet -/
  pending : Table ℕ Bytes := ∅
  /-- blocks that were asked for again -/
  holeLen : Table ℕ ℕ := ∅
  resentOffsets : List ℕ := []
  /-- the `ChunkResendMessage`s: offset and length -/
  requests : List (ℕ × ℕ) := []
  /-- what was pushed into the queue -/
  pushed : List Bytes := []
  /-- `stream_done_`, with the reason if the stream failed -/
  outcome : Option (Option String) := none

namespace Delivery

/-- Nothing is pushed once the stream is done. -/
def pushBlock (data : Bytes) (d : Delivery) : Delivery :=
  if d.outcome.isSome then d else { d with pushed := d.pushed ++ [data] }

/-- The first end of the stream stays. -/
def finishStream (reason : Option String) (d : Delivery) : Delivery :=
  if d.outcome.isSome then d else { d with outcome := some reason }

def drainPendingFuel : ℕ → Delivery → Delivery
  | 0, d => d
  | fuel + 1, d =>
    match d.pending.lookup d.nextOff with
    | none => d
    | some data =>
      drainPendingFuel fuel (({ d with
        holeLen := d.holeLen.erase d.nextOff
        received := d.received + data.length
        nextOff := d.nextOff + data.length
        pending := d.pending.erase d.nextOff } : Delivery).pushBlock data)

/-- Every round takes an entry away. -/
def drainPending (d : Delivery) : Delivery := drainPendingFuel d.pending.keys.length d

def deliverBytes (data : Bytes) (offset : ℕ) (d : Delivery) : Delivery :=
  if offset < d.nextOff then d
  else if offset = d.nextOff ∧ d.holeLen.keys = [] then
    { d.pushBlock data with
      received := d.received + data.length
      nextOff := offset + data.length }
  else { d with pending := d.pending.insert offset data }.drainPending

variable (c : Codecs) (sendAll : ℕ → Bool)

/-- A block that is complete; the answer is whether the stream goes on.  `sendAll` says whether the request
for the block at an offset can be sent. -/
def consumeBlock (block : Bytes) (offset : ℕ) (d : Delivery) : Delivery × Bool :=
  if c.dataChecksum (block.drop 16) = (read block).crc then
    (d.deliverBytes block offset, true)
  else if offset ∈ d.resentOffsets then
    (d.finishStream (some "integrity: resent block still corrupt"), false)
  else
    let d := { d with resentOffsets := offset :: d.resentOffsets }
    if sendAll offset then
      ({ d with
        requests := d.requests ++ [(offset, block.length)]
        holeLen := d.holeLen.insert offset block.length }, true)
    else (d.finishStream (some "io: resend request failed"), false)

end Delivery

/-! ### The block parser -/

/-- A length field of 32 bits that is negative. -/
def negative (n : ℕ) : Prop := 2 ^ 31 ≤ n

instance (n : ℕ) : Decidable (negative n) := inferInstanceAs (Decidable (2 ^ 31 ≤ n))

def negativeSizes : String := "integrity: corrupt block header (negative sizes)"

structure NetworkChunkSource where
  /-- the bytes of a block that came in several frames -/
  parseBuf : Bytes := []
  parseNeed : ℕ := 16
  parseOff : ℕ := 0
  delivery : Delivery := {}

namespace NetworkChunkSource

variable (c : Codecs) (sendAll : ℕ → Bool)

def fail (reason : String) (s : NetworkChunkSource) : NetworkChunkSource :=
  { s with delivery := s.delivery.finishStream (some reason) }

/-- The block `block` is complete; `taken` bytes of the frame led to that. -/
def complete (block : Bytes) (offset taken : ℕ) (s : NetworkChunkSource) : NetworkChunkSource × Option ℕ :=
  match s.delivery.consumeBlock c sendAll block offset with
  | (d, true) => ({ s with delivery := d, parseBuf := [], parseNeed := 16 }, some taken)
  | (d, false) => ({ s with delivery := d }, none)

/-- A block that goes on in a later frame, or began in an earlier one. -/
def gather (data : Bytes) (offset : ℕ) (s : NetworkChunkSource) : NetworkChunkSource × Option ℕ :=
  let parseOff := if s.parseBuf = [] then offset else s.parseOff
  let take := min data.length (s.parseNeed - s.parseBuf.length)
  let s := { s with parseOff, parseBuf := s.parseBuf ++ data.take take }
  if s.parseBuf.length < s.parseNeed then (s, none)
  else if s.parseNeed = 16 then
    let header := read s.parseBuf
    if negative header.compSize ∨ negative header.uncSize then (s.fail negativeSizes, none)
    else
      let s := { s with parseNeed := 16 + header.compSize }
      if s.parseBuf.length < s.parseNeed then (s, some take)
      else s.complete c sendAll s.parseBuf s.parseOff take
  else s.complete c sendAll s.parseBuf s.parseOff take

/-- A round of the loop: the number of bytes it has taken from the frame, if the loop goes on. -/
def feedRound (data : Bytes) (offset : ℕ) (s : NetworkChunkSource) : NetworkChunkSource × Option ℕ :=
  -- where a block begins, its header is looked at in place
  if s.parseNeed = 16 ∧ s.parseBuf = [] ∧ 16 ≤ data.length then
    let header := read data
    if negative header.compSize ∨ negative header.uncSize then (s.fail negativeSizes, none)
    else if 16 + header.compSize ≤ data.length then
      s.complete c sendAll (data.take (16 + header.compSize)) offset (16 + header.compSize)
    else s.gather c sendAll data offset
  else s.gather c sendAll data offset

/-- The bytes of the block area, from `offset` on. -/
def feedBlocks : ℕ → Bytes → ℕ → NetworkChunkSource → NetworkChunkSource
  | 0, _, _, s => s
  | fuel + 1, data, offset, s =>
    if data = [] then s
    else
      match s.feedRound c sendAll data offset with
      | (s, none) => s
      | (s, some taken) => feedBlocks fuel (data.drop taken) (offset + taken) s

/-- A frame: the trailer is handed on as it is.  Inside the block area, what is left of a frame stays
inside it, so the boundary is looked at once. -/
def feedFrame (m : ChunkMeta) (data : Bytes) (offset : ℕ) (s : NetworkChunkSource) :
    NetworkChunkSource :=
  if data = [] then s
  else if m.blockArea ≤ offset then { s with delivery := s.delivery.deliverBytes data offset }
  else if m.blockArea < offset + data.length then
    let headN := m.blockArea - offset
    let s := feedBlocks c sendAll headN (data.take headN) offset s
    { s with delivery := s.delivery.deliverBytes (data.drop headN) m.blockArea }
  else feedBlocks c sendAll data.length data offset s

/-! ### The thread -/

/-- `read_one_frame` on a `DATA_CHUNK`; the answer is whether the connection counts as usable. -/
def readChunk (m : ChunkMeta) (frame : ChunkFrame) (s : NetworkChunkSource) : NetworkChunkSource × Bool :=
  if frame.raw = [] ∨ m.totalCompressedLen < frame.offset + frame.raw.length then (s, false)
  else if frame.crc ≠ 0 ∧ c.dataChecksum frame.raw ≠ frame.crc then
    if frame.offset ∈ s.delivery.resentOffsets then
      (s.fail "integrity: resent frame still corrupt", false)
    else
      let d := { s.delivery with resentOffsets := frame.offset :: s.delivery.resentOffsets }
      if sendAll frame.offset then
        ({ s with delivery := { d with
            requests := d.requests ++ [(frame.offset, frame.raw.length)] } }, true)
      else ({ s with delivery := d.finishStream (some "io: resend request failed") }, false)
  else (s, true)

/-- Nothing is missing and no block is complete but not consumed. -/
def clean (s : NetworkChunkSource) : Prop :=
  s.delivery.holeLen.keys = [] ∧ s.parseBuf.length < s.parseNeed

instance (s : NetworkChunkSource) : Decidable s.clean := inferInstanceAs (Decidable (_ ∧ _))

/-- The count of bytes at the end of the stream. -/
def reconcile (m : ChunkMeta) (s : NetworkChunkSource) : NetworkChunkSource :=
  if s.delivery.received ≠ m.totalCompressedLen then s.fail "integrity: byte count mismatch"
  else { s with delivery := s.delivery.finishStream none }

/-- The thread, on what arrives until the connection is lost. -/
def recvLoop (m : ChunkMeta) : Bool → NetworkChunkSource → List Arrival → NetworkChunkSource
  | _, s, [] => s.fail "io: connection lost during chunk stream"
  | digestSeen, s, arrival :: rest =>
    if s.delivery.outcome.isSome then s
    else
      match arrival with
      | .badHeader => s.fail "integrity: frame header check failed"
      | .digest =>
        if digestSeen then s.fail "integrity: duplicate digest frame"
        else if s.clean then s.reconcile m
        else recvLoop m true s rest
      | .chunk frame =>
        match s.readChunk c sendAll m frame with
        | (s, false) => s.fail "io: connection lost during chunk stream"
        | (s, true) =>
          let s := s.feedFrame c sendAll m frame.raw frame.offset
          if digestSeen ∧ s.clean then s.reconcile m else recvLoop m digestSeen s rest

end NetworkChunkSource

/-! ### Blocks in frames -/

/-- Bytes that are a whole block by their own length fields. -/
structure Sized (block : Bytes) : Prop where
  comp : ¬negative (read block).compSize
  unc : ¬negative (read block).uncSize
  length : block.length = 16 + (read block).compSize

namespace NetworkChunkSource

variable (c : Codecs) (sendAll : ℕ → Bool)

/-- How many bytes the parser waits for, with `p` in its buffer. -/
def needFor (p : Bytes) : ℕ := if p.length < 16 then 16 else 16 + (read p).compSize

/-- The parser has the bytes `p` of a block that begins at `start`. -/
structure Midway (s : NetworkChunkSource) (start : ℕ) (p : Bytes) : Prop where
  buf : s.parseBuf = p
  need : s.parseNeed = needFor p
  off : p ≠ [] → s.parseOff = start
  short : p.length < needFor p

/-- Consume blocks that follow each other. -/
def consumeAll : List Bytes → ℕ → Delivery → Option Delivery
  | [], _, d => some d
  | block :: blocks, offset, d =>
    match d.consumeBlock c sendAll block offset with
    | (d, true) => consumeAll blocks (offset + block.length) d
    | (_, false) => none

variable {c sendAll} {s : NetworkChunkSource} {start fuel offset : ℕ} {p data q block rest more tail : Bytes}
  {d : Delivery}

theorem midway_nil (hbuf : s.parseBuf = []) (hneed : s.parseNeed = 16) : s.Midway offset [] :=
  ⟨hbuf, hneed, fun h => absurd rfl h, by decide⟩

/-- What a buffer waits for is the length of the block it is the beginning of. -/
theorem needFor_of_append (hblock : Sized block) (hp : 16 ≤ p.length)
    (hsame : p ++ rest = block) : needFor p = block.length := by
  rw [needFor, if_neg (by omega), hblock.length, ← hsame, read_append hp]

/-- It does not change before the parser has it. -/
theorem needFor_append (hshort : (p ++ data).length < needFor p) : needFor (p ++ data) = needFor p := by
  by_cases hp : p.length < 16
  · have hneed : needFor p = 16 := if_pos hp
    rw [hneed] at hshort ⊢
    exact if_pos hshort
  · rw [needFor, needFor, if_neg hp, if_neg (by rw [length_append]; omega), read_append (not_lt.mp hp)]

/-- A buffer that waits for more does not hold the whole block. -/
theorem length_lt_of_short (hblock : Sized block) (hp : p.length < needFor p)
    (hsame : p ++ data = block ++ rest) : p.length < block.length := by
  have hlength := hblock.length
  by_cases hshort : p.length < 16
  · omega
  have hlong : 16 ≤ block.length := by omega
  have hread : read p = read block := by
    rw [← read_append (not_lt.mp hshort) data, hsame, read_append hlong]
  rw [needFor, if_neg hshort, hread] at hp
  omega

/-- A whole block at the front of a frame. -/
theorem feedRound_of_block (hs : s.Midway start [])
    (hblock : Sized block) (hconsume : s.delivery.consumeBlock c sendAll block start = (d, true)) :
    s.feedRound c sendAll (block ++ rest) start =
      ({ s with delivery := d, parseBuf := [], parseNeed := 16 }, some block.length) := by
  have hlength := hblock.length
  have hread := read_append (show 16 ≤ block.length by omega) rest
  have hstart : s.parseNeed = 16 ∧ s.parseBuf = [] ∧ 16 ≤ (block ++ rest).length :=
    ⟨hs.need, hs.buf, by rw [length_append]; omega⟩
  have hsizes : ¬(negative (read block).compSize ∨
      negative (read block).uncSize) := not_or.mpr ⟨hblock.comp, hblock.unc⟩
  rw [feedRound, if_pos hstart]
  rw [hread, if_neg hsizes, ← hlength, if_pos (by rw [length_append]; omega), take_left, complete, hconsume]

/-- A frame that does not begin with a whole block. -/
theorem feedRound_eq_gather (hblock : Sized block) (hshort : s.parseBuf = [] → data.length < block.length)
    (hsame : s.parseBuf = [] → data <+: block) :
    s.feedRound c sendAll data start = s.gather c sendAll data start := by
  unfold feedRound
  split
  · next h =>
    obtain ⟨rest, hrest⟩ := hsame h.2.1
    have hread : read data = read block := by
      rw [← hrest, read_append h.2.2]
    have hlength := hblock.length
    have hlt := hshort h.2.1
    rw [hread, if_neg (not_or.mpr ⟨hblock.comp, hblock.unc⟩), if_neg (by omega)]
  · rfl

theorem start_add_length (start : ℕ) : p = [] → start + p.length = start := by
  intro hnil
  rw [hnil, length_nil, add_zero]

/-- The part of a frame that fills the buffer up to `n` bytes. -/
theorem exists_fill {n : ℕ} (hp : p.length ≤ n) (hn : n ≤ (p ++ data).length) :
    ∃ more rest, data = more ++ rest ∧ (p ++ more).length = n := by
  refine ⟨data.take (n - p.length), data.drop (n - p.length), (take_append_drop _ _).symm, ?_⟩
  rw [length_append] at hn ⊢
  rw [length_take]
  omega

/-- After a round that goes on, the loop does. -/
theorem feedBlocks_of_round {s' : NetworkChunkSource} (hmore : more ≠ [])
    (hfuel : (more ++ rest).length ≤ fuel)
    (hround : s.feedRound c sendAll (more ++ rest) offset = (s', some more.length)) :
    ∃ fuel', feedBlocks c sendAll fuel (more ++ rest) offset s =
      feedBlocks c sendAll fuel' rest (offset + more.length) s' ∧ rest.length ≤ fuel' := by
  have hpos := length_pos_iff.mpr hmore
  rw [length_append] at hfuel
  obtain ⟨fuel, rfl⟩ := Nat.exists_eq_succ_of_ne_zero (show fuel ≠ 0 by omega)
  refine ⟨fuel, ?_, by omega⟩
  rw [feedBlocks, if_neg (append_ne_nil_of_left_ne_nil hmore rest), hround]
  dsimp only
  rw [drop_left]

theorem feedBlocks_nil (offset : ℕ) : feedBlocks c sendAll fuel [] offset s = s := by
  cases fuel with
  | zero => rfl
  | succ fuel => rw [feedBlocks, if_pos rfl]

section

variable (hs : s.Midway start p)
include hs

/-- The offset of a block is that of its first byte. -/
theorem Midway.parseOff_eq (hoffset : p = [] → offset = start) :
    (if s.parseBuf = [] then offset else s.parseOff) = start := by
  rw [hs.buf]
  split
  · next hnil => exact hoffset hnil
  · next hne => exact hs.off hne

/-- A frame inside a block that has begun. -/
theorem feedRound_of_begun (hp : p ≠ []) :
    s.feedRound c sendAll data offset = s.gather c sendAll data offset := by
  rw [feedRound, if_neg fun hstart => hp (hs.buf.symm.trans hstart.2.1)]

/-- The frame ends before the parser has what it waits for. -/
theorem gather_of_short (hoffset : p = [] → offset = start)
    (hshort : (p ++ data).length < needFor p) :
    s.gather c sendAll data offset = ({ s with parseOff := start, parseBuf := p ++ data }, none) := by
  have hoff := hs.parseOff_eq hoffset
  have htake : data.take (min data.length (s.parseNeed - s.parseBuf.length)) = data := by
    rw [hs.need, hs.buf]
    rw [length_append] at hshort
    exact take_of_length_le (by omega)
  unfold gather
  dsimp only
  rw [hoff, htake, hs.buf, if_pos (by rw [hs.need]; exact hshort)]

/-- The parser gets what it waits for: `more` is the part of the frame that it takes. -/
theorem gather_of_enough (hoffset : p = [] → offset = start) (henough : (p ++ more).length = needFor p) :
    s.gather c sendAll (more ++ rest) offset =
      if s.parseNeed = 16 then
        if negative (read (p ++ more)).compSize ∨
            negative (read (p ++ more)).uncSize then
          (({ s with parseOff := start, parseBuf := p ++ more } : NetworkChunkSource).fail negativeSizes,
            none)
        else if 16 < 16 + (read (p ++ more)).compSize then
          ({ s with
            parseOff := start
            parseBuf := p ++ more
            parseNeed := 16 + (read (p ++ more)).compSize }, some more.length)
        else
          ({ s with
            parseOff := start
            parseBuf := p ++ more
            parseNeed := 16 + (read (p ++ more)).compSize } :
            NetworkChunkSource).complete c sendAll (p ++ more) start more.length
      else
        ({ s with parseOff := start, parseBuf := p ++ more } : NetworkChunkSource).complete c sendAll
          (p ++ more) start more.length := by
  have hoff := hs.parseOff_eq hoffset
  have hmin : min (more ++ rest).length (s.parseNeed - s.parseBuf.length) = more.length := by
    rw [hs.need, hs.buf, ← henough, length_append, length_append]
    omega
  have hfull : ¬(p ++ more).length < s.parseNeed := by rw [hs.need, henough]; exact lt_irrefl _
  unfold gather
  dsimp only
  rw [hoff, hmin, hs.buf, take_left, if_neg hfull]
  by_cases hneed : s.parseNeed = 16
  · have hsixteen : (p ++ more).length = 16 := by rw [henough, ← hs.need, hneed]
    rw [if_pos hneed, if_pos hneed, hsixteen]
  · rw [if_neg hneed, if_neg hneed]

/-- A block is complete that began in an earlier frame, or in one too short for its header. -/
theorem gather_of_block (hblock : Sized (p ++ more))
    (henough : (p ++ more).length = needFor p)
    (hconsume : s.delivery.consumeBlock c sendAll (p ++ more) start = (d, true)) :
    s.gather c sendAll (more ++ rest) (start + p.length) =
      ({ s with delivery := d, parseOff := start, parseBuf := [], parseNeed := 16 }, some more.length) := by
  have hlength := hblock.length
  rw [gather_of_enough hs (start_add_length start) henough]
  by_cases hneed : s.parseNeed = 16
  · rw [hs.need] at hneed
    rw [if_pos (hs.need.trans hneed), if_neg (not_or.mpr ⟨hblock.comp, hblock.unc⟩), if_neg (by omega)]
    simp only [complete, hconsume]
  · rw [if_neg hneed]
    simp only [complete, hconsume]

/-- The header of a block is complete, the block is not: the loop goes on with the header. -/
theorem feedBlocks_of_header (hblock : Sized (p ++ more ++ tail)) (hheader : (p ++ more).length = 16)
    (hp : p.length < 16) (htail : tail ≠ [])
    (hround : s.feedRound c sendAll (more ++ rest) (start + p.length) =
      s.gather c sendAll (more ++ rest) (start + p.length)) (hfuel : (more ++ rest).length ≤ fuel) :
    ∃ fuel' s', feedBlocks c sendAll fuel (more ++ rest) (start + p.length) s =
        feedBlocks c sendAll fuel' rest (start + (p ++ more).length) s' ∧ rest.length ≤ fuel' ∧
      s'.delivery = s.delivery ∧ s'.Midway start (p ++ more) := by
  have hneed : needFor p = 16 := if_pos hp
  have hread := read_append hheader.ge tail
  have hcomp := hblock.comp
  have hunc := hblock.unc
  have hlength := hblock.length
  have hpos := length_pos_iff.mpr htail
  rw [hread] at hcomp hunc hlength
  rw [length_append, hheader] at hlength
  have hwait : needFor (p ++ more) = 16 + (read (p ++ more)).compSize := if_neg (by omega)
  have hgather : s.gather c sendAll (more ++ rest) (start + p.length) =
      ({ s with parseOff := start, parseBuf := p ++ more, parseNeed := needFor (p ++ more) },
        some more.length) := by
    rw [gather_of_enough hs (start_add_length start) (by rw [hheader, hneed]),
      if_pos (by rw [hs.need, hneed]), if_neg (not_or.mpr ⟨hcomp, hunc⟩), if_pos (by omega), hwait]
  have hmore : more ≠ [] := by
    rintro rfl
    rw [append_nil] at hheader
    omega
  obtain ⟨fuel', hloop, hfuel'⟩ := feedBlocks_of_round hmore hfuel (hround.trans hgather)
  rw [add_assoc, ← length_append] at hloop
  exact ⟨fuel', _, hloop, hfuel', rfl, rfl, rfl, fun _ => rfl, by omega⟩

/-- The frame ends before the parser has what it waits for. -/
theorem feedBlocks_of_short (hoffset : p = [] → offset = start)
    (hround : s.feedRound c sendAll data offset = s.gather c sendAll data offset)
    (hshort : (p ++ data).length < needFor p) (hfuel : data.length ≤ fuel) :
    (feedBlocks c sendAll fuel data offset s).delivery = s.delivery ∧
      (feedBlocks c sendAll fuel data offset s).Midway start (p ++ data) := by
  by_cases hne : data = []
  · rw [hne, feedBlocks_nil, append_nil]
    exact ⟨rfl, hs⟩
  have hpos := length_pos_iff.mpr hne
  obtain ⟨fuel, rfl⟩ := Nat.exists_eq_succ_of_ne_zero (show fuel ≠ 0 by omega)
  rw [feedBlocks, if_neg hne, hround, gather_of_short hs hoffset hshort]
  have hneed := needFor_append hshort
  exact ⟨rfl, rfl, hs.need.trans hneed.symm, fun _ => rfl, hneed.symm ▸ hshort⟩

/-- The frame ends inside a block, of which `q` is here then. -/
theorem feedBlocks_inside (hdata : p ++ data = q)
    (hblock : Sized (q ++ tail)) (htail : tail ≠ []) (hfuel : data.length ≤ fuel) :
    (feedBlocks c sendAll fuel data (start + p.length) s).delivery = s.delivery ∧
      (feedBlocks c sendAll fuel data (start + p.length) s).Midway start q := by
  subst hdata
  have hpos := length_pos_iff.mpr htail
  have hwhole : (p ++ data ++ tail).length = (p ++ data).length + tail.length := length_append
  have hround : s.feedRound c sendAll data (start + p.length) =
      s.gather c sendAll data (start + p.length) := by
    refine feedRound_eq_gather hblock (fun _ => ?_) fun hbuf => ?_
    · rw [hwhole, length_append]
      omega
    · rw [← hs.buf, hbuf]
      exact prefix_append data tail
  by_cases hshort : (p ++ data).length < needFor p
  · exact feedBlocks_of_short hs (start_add_length start) hround hshort hfuel
  -- only the header can be complete
  have hp : p.length < 16 := by
    by_contra hlong
    have hneed := needFor_of_append hblock (not_lt.mp hlong) (append_assoc p data tail).symm
    omega
  have hlong : 16 ≤ (p ++ data).length := by
    rw [needFor, if_pos hp] at hshort
    omega
  obtain ⟨more, rest, rfl, hmore⟩ := exists_fill hp.le hlong
  rw [← append_assoc] at hblock hwhole ⊢
  obtain ⟨fuel', s', hloop, hfuel', hdelivery, hs'⟩ := feedBlocks_of_header hs
    (append_assoc _ rest tail ▸ hblock) hmore hp (append_ne_nil_of_right_ne_nil rest htail) hround hfuel
  rw [hloop, ← hdelivery]
  refine feedBlocks_of_short hs' (start_add_length start)
    (feedRound_of_begun hs' (length_pos_iff.mp (by omega))) ?_ hfuel'
  rw [needFor_of_append hblock hmore.ge (append_assoc _ rest tail).symm]
  omega

theorem feedBlocks_of_no_block (hdata : p ++ data = q)
    (hq : q = [] ∨ ∃ tail, tail ≠ [] ∧ Sized (q ++ tail)) (hconsume : some s.delivery = some d)
    (hfuel : data.length ≤ fuel) :
    (feedBlocks c sendAll fuel data (start + p.length) s).delivery = d ∧
      (feedBlocks c sendAll fuel data (start + p.length) s).Midway start q := by
  rw [← Option.some.inj hconsume]
  rcases hq with hnil | ⟨tail, htail, hblock⟩
  · rw [hnil] at hdata ⊢
    obtain ⟨hp, hnone⟩ := append_eq_nil_iff.mp hdata
    rw [hnone, feedBlocks_nil]
    exact ⟨rfl, hp ▸ hs⟩
  · exact feedBlocks_inside hs hdata hblock htail hfuel

/-- The parser gets the rest of a block in one round. -/
theorem feedBlocks_of_enough (hblock : Sized (p ++ tail)) (htail : tail ≠ [])
    (henough : p ≠ [] → (p ++ tail).length = needFor p)
    (hconsume : s.delivery.consumeBlock c sendAll (p ++ tail) start = (d, true))
    (hfuel : (tail ++ rest).length ≤ fuel) :
    ∃ fuel' s', feedBlocks c sendAll fuel (tail ++ rest) (start + p.length) s =
        feedBlocks c sendAll fuel' rest (start + (p ++ tail).length) s' ∧ rest.length ≤ fuel' ∧
      s'.delivery = d ∧ s'.Midway (start + (p ++ tail).length) [] := by
  obtain ⟨s', hround, hdelivery, hbuf, hneed⟩ : ∃ s',
      s.feedRound c sendAll (tail ++ rest) (start + p.length) = (s', some tail.length) ∧
        s'.delivery = d ∧ s'.parseBuf = [] ∧ s'.parseNeed = 16 := by
    by_cases hp : p = []
    · subst hp
      exact ⟨_, feedRound_of_block hs hblock hconsume, rfl, rfl, rfl⟩
    · rw [feedRound_of_begun hs hp, gather_of_block hs hblock (henough hp) hconsume]
      exact ⟨_, rfl, rfl, rfl, rfl⟩
  obtain ⟨fuel', hloop, hfuel'⟩ := feedBlocks_of_round htail hfuel hround
  rw [add_assoc, ← length_append] at hloop
  exact ⟨fuel', s', hloop, hfuel', hdelivery, midway_nil hbuf hneed⟩

/-- The rest of a block is at the front of the frame: the loop goes on behind it. -/
theorem feedBlocks_of_block (hblock : Sized (p ++ tail)) (htail : tail ≠ [])
    (hconsume : s.delivery.consumeBlock c sendAll (p ++ tail) start = (d, true))
    (hfuel : (tail ++ rest).length ≤ fuel) :
    ∃ fuel' s', feedBlocks c sendAll fuel (tail ++ rest) (start + p.length) s =
        feedBlocks c sendAll fuel' rest (start + (p ++ tail).length) s' ∧ rest.length ≤ fuel' ∧
      s'.delivery = d ∧ s'.Midway (start + (p ++ tail).length) [] := by
  have hlength := hblock.length
  by_cases hheader : p ≠ [] ∧ p.length < 16 ∧ 16 < (p ++ tail).length
  · -- first the header is completed
    obtain ⟨hne, hp, hlong⟩ := hheader
    obtain ⟨more, tail, rfl, hmore⟩ := exists_fill hp.le hlong.le
    rw [← append_assoc] at hblock hconsume hlong ⊢
    rw [append_assoc] at hfuel ⊢
    have htail' : tail ≠ [] := by
      rintro rfl
      rw [append_nil] at hlong
      omega
    obtain ⟨fuel', s', hloop, hfuel', hdelivery, hs'⟩ := feedBlocks_of_header hs hblock hmore hp htail'
      (feedRound_of_begun hs hne) hfuel
    rw [hloop]
    exact feedBlocks_of_enough hs' hblock htail'
      (fun _ => (needFor_of_append hblock hmore.ge rfl).symm) (hdelivery ▸ hconsume) hfuel'
  · refine feedBlocks_of_enough hs hblock htail (fun hne => ?_) hconsume hfuel
    by_cases hp : p.length < 16
    · rw [needFor, if_pos hp]
      have := not_and.mp (not_and.mp hheader hne) hp
      omega
    · exact (needFor_of_append hblock (not_lt.mp hp) rfl).symm

/-- **However blocks are cut into frames**: a frame that completes the blocks `done` and ends with the
first bytes `q` of another consumes these blocks in their order, each at its own offset, and keeps `q`. -/
theorem feedBlocks_spec {done : List Bytes}
    (hdata : p ++ data = done.flatten ++ q) (hdone : ∀ block ∈ done, Sized block)
    (hq : q = [] ∨ ∃ tail, tail ≠ [] ∧ Sized (q ++ tail))
    (hconsume : consumeAll c sendAll done start s.delivery = some d) (hfuel : data.length ≤ fuel) :
    (feedBlocks c sendAll fuel data (start + p.length) s).delivery = d ∧
      (feedBlocks c sendAll fuel data (start + p.length) s).Midway (start + done.flatten.length) q := by
  induction done generalizing fuel data p s start with
  | nil => exact feedBlocks_of_no_block hs hdata hq hconsume hfuel
  | cons block done ih =>
    obtain ⟨hblock, hrest⟩ := forall_mem_cons.mp hdone
    have hsame : p ++ data = block ++ (done.flatten ++ q) := by
      rw [hdata, flatten_cons, append_assoc]
    have hlt := length_lt_of_short hblock hs.short hsame
    rw [consumeAll] at hconsume
    split at hconsume
    case h_2 => cases hconsume
    rename_i d₁ hfirst
    -- the rest of the block is at the front of the frame
    obtain ⟨tail, rfl, rfl⟩ : ∃ tail, block = p ++ tail ∧ data = tail ++ (done.flatten ++ q) := by
      rcases append_eq_append_iff.mp hsame with ⟨tail, h₁, h₂⟩ | ⟨tail, h₁, h₂⟩
      · exact ⟨tail, h₁, h₂⟩
      · rw [h₁, length_append] at hlt
        omega
    have htail : tail ≠ [] := by
      rintro rfl
      rw [append_nil] at hlt
      exact lt_irrefl _ hlt
    obtain ⟨fuel', s', hloop, hfuel', rfl, hs'⟩ := feedBlocks_of_block hs hblock htail hfirst hfuel
    have hsum : (p ++ tail ++ done.flatten).length = (p ++ tail).length + done.flatten.length :=
      length_append
    rw [hloop, flatten_cons, hsum, ← add_assoc]
    exact ih hs' (nil_append _) hrest hconsume hfuel'

end

end NetworkChunkSource

end Fly.Storage
