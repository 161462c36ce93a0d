import Fly.Storage.Pipeline

/-!
# Reading a stream (`PeerStreamReader`)

The network thread puts the blocks of a stream into a queue; the reader takes them out, decodes them and
copies the plaintext to its caller.  One buffer with one position serves both as the record that the
pipeline pulls from and as the plaintext that is copied out.

* `PeerStreamRxState` — what the two threads share: the queue, the flags, and what `END` has said;
* `pullSource` — the pull function of the pipeline, on the shared buffer;
* `PeerStreamReader` — the reader: `advance` and `verify` are the two halves of `advance_block`;
* `ReadCall`, `Task`, `ReadThread.step` — the operations, one step for each access to what is shared;
* `advance_of_record` — **a whole block in the queue is decoded, and leaves the buffer used up**;
  `advance_of_empty` — with nothing in the queue the reader waits until the stream has ended.
-/

namespace Fly.Agent

open Fly.Lib Fly.Storage List

/-- What the threads share; the parts that only the network thread uses are with the connection. -/
structure PeerStreamRxState where
  blocks : List Bytes := []
  qBytes : ℕ := 0
  endSeen : Bool := false
  failed : Bool := false
  abandoned : Bool := false
  consumed : UInt64 := 0
  endTotal : UInt64 := 0
  endChunks : UInt32 := 0
  endConsumed : UInt64 := 0
  deriving DecidableEq

namespace PeerStreamRxState

/-- The bound of the queue. -/
def kQueueBytes : ℕ := 64 * 1024 * 1024

def ended (rx : PeerStreamRxState) : Bool := rx.endSeen || rx.failed || rx.abandoned

/-- The record at the front has been taken out. -/
def pop (rx : PeerStreamRxState) (block : Bytes) (blocks : List Bytes) : PeerStreamRxState :=
  { rx with
    blocks
    qBytes := rx.qBytes - block.length
    consumed := rx.consumed + .ofNat block.length }

end PeerStreamRxState

/-! ### Pulling -/

/-- What the pull function works on.  `starved` marks a pull that would wait. -/
structure Pulling where
  rx : PeerStreamRxState
  curBlock : Bytes
  curPos : ℕ
  starved : Bool := false

namespace Pulling

/-- Copy from the buffer, and take the next record when it is used up. -/
def pullFuel : ℕ → ℕ → Bytes → Pulling → Option Bytes × Pulling
  | 0, _, done, s => (some done, s)
  | fuel + 1, n, done, s =>
    if n ≤ done.length then (some done, s)
    else if s.curPos < s.curBlock.length then
      let piece := (s.curBlock.drop s.curPos).take (n - done.length)
      pullFuel fuel n (done ++ piece) { s with curPos := s.curPos + piece.length }
    else
      match s.rx.blocks with
      | [] => (if done = [] then none else some done, { s with starved := s.starved || !s.rx.ended })
      | block :: blocks =>
        pullFuel fuel n done { s with rx := s.rx.pop block blocks, curBlock := block, curPos := 0 }

/-- Every record is taken once and used up once. -/
def pull (s : Pulling) (n : ℕ) : Option Bytes × Pulling := pullFuel (2 * s.rx.blocks.length + 3) n [] s

theorem length_pullFuel (fuel n : ℕ) (done : Bytes) (hdone : done.length ≤ n) (s : Pulling) :
    ((pullFuel fuel n done s).1.getD []).length ≤ n := by
  induction fuel generalizing done s with
  | zero => exact hdone
  | succ fuel ih =>
    unfold pullFuel
    split
    · exact hdone
    split
    · refine ih _ ?_ _
      rw [length_append, length_take]
      omega
    · split
      · split
        · exact Nat.zero_le n
        · exact hdone
      · exact ih done hdone _

end Pulling

def pullSource : Source Pulling where
  pull := Pulling.pull
  pull_length s n := Pulling.length_pullFuel _ n [] (Nat.zero_le n) s

namespace Pulling

variable {s : Pulling} {n : ℕ}

/-- What the buffer still holds is handed out. -/
theorem pull_of_buffered (hn : 0 < n) (hle : s.curPos + n ≤ s.curBlock.length) :
    s.pull n = (some ((s.curBlock.drop s.curPos).take n), { s with curPos := s.curPos + n }) := by
  have hpiece : ((s.curBlock.drop s.curPos).take n).length = n := by
    rw [length_take, length_drop]
    omega
  rw [pull, pullFuel, if_neg (by simp; omega), if_pos (by omega)]
  dsimp only
  rw [length_nil, Nat.sub_zero, nil_append, hpiece, pullFuel, if_pos hpiece.ge]

/-- With the buffer used up, the next record is taken. -/
theorem pull_of_record {block : Bytes} {blocks : List Bytes} (hn : 0 < n)
    (hused : s.curBlock.length ≤ s.curPos)
    (hblocks : s.rx.blocks = block :: blocks) (hle : n ≤ block.length) :
    s.pull n =
      (some (block.take n), { s with rx := s.rx.pop block blocks, curBlock := block, curPos := n }) := by
  have hpiece : (block.take n).length = n := by
    rw [length_take]
    omega
  rw [pull, pullFuel, if_neg (by simp; omega), if_neg (by omega), hblocks]
  dsimp only
  rw [length_cons, show 2 * (blocks.length + 1) + 2 = (2 * blocks.length + 3) + 1 by omega, pullFuel,
    if_neg (by simp; omega), if_pos (show 0 < block.length by omega)]
  dsimp only
  rw [length_nil, Nat.sub_zero, nil_append, drop_zero, hpiece, pullFuel, if_pos hpiece.ge, Nat.zero_add]

/-- With nothing in the queue either, there is nothing to hand out. -/
theorem pull_of_empty (hn : 0 < n) (hused : s.curBlock.length ≤ s.curPos) (hblocks : s.rx.blocks = []) :
    s.pull n = (none, { s with starved := s.starved || !s.rx.ended }) := by
  rw [pull, pullFuel, if_neg (by simp; omega), if_neg (by omega), hblocks]
  rfl

theorem pullExact_of_pull {bytes : Bytes} {s' : Pulling} (part : Bool) (hn : 0 < n)
    (hpull : s.pull n = (some bytes, s')) (hlength : bytes.length = n) :
    pullExact pullSource n part s = ⟨some bytes, part, s'⟩ := by
  have hpiece : pullSource.piece s n = bytes := by
    show (s.pull n).1.getD [] = bytes
    rw [hpull]
    rfl
  have hnext : (pullSource.pull s n).2 = s' := by
    show (s.pull n).2 = s'
    rw [hpull]
  rw [pullExact_of_length_piece part (by rw [hpiece, hlength]) hn, hpiece, hnext]

/-- The payload behind the header uses the record up. -/
theorem pullExact_payload (part starved : Bool) (rx : PeerStreamRxState) {header : Bytes} (payload : Bytes)
    (hheader : header.length = 16) :
    pullExact pullSource payload.length part ⟨rx, header ++ payload, 16, starved⟩ =
      ⟨some payload, part, ⟨rx, header ++ payload, (header ++ payload).length, starved⟩⟩ := by
  by_cases hempty : payload = []
  · rw [hempty, append_nil, hheader]
    rfl
  have hpos := length_pos_iff.mpr hempty
  have hend : 16 + payload.length = (header ++ payload).length := by rw [length_append, hheader]
  have hpull := pull_of_buffered (s := ⟨rx, header ++ payload, 16, starved⟩) hpos hend.le
  rw [drop_left' hheader, take_length, hend] at hpull
  exact pullExact_of_pull part hpos hpull rfl

end Pulling

/-! ### The reader -/

/-- The fields `hdrPartial`, `pipeFailed` and `pipeEof` are those of its pipeline. -/
structure PeerStreamReader where
  compressionType : CompressionType
  rx : PeerStreamRxState := {}
  curBlock : Bytes := []
  curPos : ℕ := 0
  hdrPartial : Bool := false
  pipeFailed : Bool := false
  pipeEof : Bool := false
  eof : Bool := false
  plainTotal : UInt64 := 0
  chunks : UInt32 := 0
  deriving DecidableEq

namespace PeerStreamReader

variable (r : PeerStreamReader)

def pipeline : ReadPipeline Pulling where
  source := { rx := r.rx, curBlock := r.curBlock, curPos := r.curPos }
  hdrPartial := r.hdrPartial
  failed := r.pipeFailed
  eof := r.pipeEof

def after (p : ReadPipeline Pulling) : PeerStreamReader :=
  { r with
    rx := p.source.rx
    curBlock := p.source.curBlock
    curPos := p.source.curPos
    hdrPartial := p.hdrPartial
    pipeFailed := p.failed
    pipeEof := p.eof }

/-- The next block, and whether there was one; `none` as long as the pipeline waits. -/
def advance (c : Codecs) (r : PeerStreamReader) : Option (Bool × PeerStreamReader) :=
  let result := nextBlock pullSource (decodeBlock c r.compressionType) r.pipeline
  if result.2.source.starved then none
  else
    match result.1 with
    | none => some (false, r.after result.2)
    | some plain =>
      some (true, { r.after result.2 with
        curBlock := plain
        curPos := 0
        plainTotal := r.plainTotal + .ofNat plain.length
        chunks := r.chunks + 1 })

/-- The end is clean if all counts are those of the sender; otherwise the stream has failed. -/
def verify : PeerStreamReader :=
  if !r.pipeFailed && r.rx.endSeen && r.plainTotal == r.rx.endTotal && r.chunks == r.rx.endChunks
      && r.rx.consumed == r.rx.endConsumed then { r with eof := true }
  else { r with rx := { r.rx with failed := true } }

/-- `check_failed` -/
def hasFailed : Bool := r.rx.failed && !r.eof

section Advance

variable {r} {c : Codecs}

theorem not_stopped (hfailed : r.pipeFailed = false) (heof : r.pipeEof = false) :
    ¬(r.pipeline.failed = true ∨ r.pipeline.eof = true) := by
  show ¬(r.pipeFailed = true ∨ r.pipeEof = true)
  simp [hfailed, heof]

/-- **A whole block in the queue is decoded**: the header and the payload are exactly the record, so the
buffer is used up when the plaintext takes its place. -/
theorem advance_of_record (hused : r.curBlock.length ≤ r.curPos) (hfailed : r.pipeFailed = false)
    (heof : r.pipeEof = false) {block plain : Bytes} {blocks : List Bytes}
    (hblocks : r.rx.blocks = block :: blocks)
    (hblock : IsBlock (decodeBlock c r.compressionType) block plain) :
    r.advance c = some (true, { r with
      rx := r.rx.pop block blocks
      curBlock := plain
      curPos := 0
      hdrPartial := false
      plainTotal := r.plainTotal + UInt64.ofNat plain.length
      chunks := r.chunks + 1 }) := by
  obtain ⟨header, payload, rfl, hheader, hpayload, hunc, hcomp, hdecode⟩ := hblock
  have hsizes : ¬(kMaxWireBlockBytes < (BlockHeader.read header).uncSize ∨
      kMaxWireBlockBytes < (BlockHeader.read header).compSize) := by omega
  have hlong : 16 ≤ (header ++ payload).length := by rw [length_append]; omega
  have hpull := Pulling.pull_of_record (s := r.pipeline.source) (by decide) hused hblocks hlong
  rw [take_left' hheader] at hpull
  have hnext : nextBlock pullSource (decodeBlock c r.compressionType) r.pipeline =
      (some plain, { r.pipeline with
        source := ⟨r.rx.pop (header ++ payload) blocks, header ++ payload, (header ++ payload).length, false⟩
        hdrPartial := false }) := by
    rw [nextBlock, if_neg (not_stopped hfailed heof),
      Pulling.pullExact_of_pull r.pipeline.hdrPartial (by decide) hpull hheader]
    dsimp only
    rw [readBody, if_neg hsizes, ← hpayload]
    dsimp only
    rw [Pulling.pullExact_payload _ _ _ payload hheader]
    dsimp only
    rw [Option.bind_some, hdecode]
    rfl
  rw [advance, hnext]
  rfl

/-- With nothing in the queue, the reader waits until the stream has ended. -/
theorem advance_of_empty (hused : r.curBlock.length ≤ r.curPos) (hmark : r.hdrPartial = false)
    (hfailed : r.pipeFailed = false) (hblocks : r.rx.blocks = []) :
    r.advance c = (if r.pipeEof || r.rx.ended then some (false, { r with pipeEof := true }) else none) := by
  cases heof : r.pipeEof with
  | true =>
    have hstopped : r.pipeline.failed = true ∨ r.pipeline.eof = true := Or.inr heof
    rw [advance, nextBlock, if_pos hstopped]
    show some (false, r) = some (false, { r with pipeEof := true })
    rw [← heof]
  | false =>
    have hpull := Pulling.pull_of_empty (s := r.pipeline.source) (n := 16) (by decide) hused hblocks
    have hpiece : pullSource.piece r.pipeline.source 16 = [] := by
      show (r.pipeline.source.pull 16).1.getD [] = []
      rw [hpull]
      rfl
    have hnext : nextBlock pullSource (decodeBlock c r.compressionType) r.pipeline =
        (none, { r.pipeline with
          source := ⟨r.rx, r.curBlock, r.curPos, !r.rx.ended⟩
          eof := true }) := by
      rw [nextBlock, if_neg (not_stopped hfailed heof), pullExact_of_piece_eq_nil (by decide) _ hpiece]
      have hstate : (pullSource.pull r.pipeline.source 16).2 = ⟨r.rx, r.curBlock, r.curPos, !r.rx.ended⟩ := by
        show (r.pipeline.source.pull 16).2 = _
        rw [hpull]
        rfl
      have hmark' : r.pipeline.hdrPartial = false := hmark
      dsimp only
      rw [hstate, hmark']
      rfl
    rw [advance, hnext]
    cases r.rx.ended <;> rfl

end Advance

end PeerStreamReader

/-! ### The operations -/

inductive ReadCall where
  | read (n : ℕ)
  | readinto (n : ℕ)
  | readline
  | readAll
  deriving DecidableEq

namespace ReadCall

/-- How much a `read_span` of the operation asks for. -/
def span : ReadCall → ℕ
  | read n => n
  | readinto n => n
  | readline => 1
  | readAll => 65536

/-- What the operation returns signals the end of the file. -/
def SignalsEnd (call : ReadCall) (bytes : Bytes) : Prop :=
  match call with
  | read n => bytes.length < n
  | readinto n => bytes.length < n
  | readline => bytes.getLast? ≠ some 10
  | readAll => True

end ReadCall

/-- Where an operation stands: in the loop of `read_span`, before the verification of the end, behind the
loop, and before `check_failed`. -/
inductive Ctl where
  | span
  | verify
  | spanEnd
  | check
  deriving DecidableEq

/-- An operation under way: what it has collected, and what its current `read_span` has got. -/
structure Task where
  call : ReadCall
  out : Bytes := []
  got : Bytes := []
  ctl : Ctl := .span
  deriving DecidableEq

/-- The thread that reads; the result of an operation is `none` if it threw. -/
structure ReadThread where
  reader : PeerStreamReader
  task : Option Task := none
  results : List (ReadCall × Option Bytes) := []
  deriving DecidableEq

namespace ReadThread

variable (c : Codecs) (t : ReadThread) (k : Task)

def give (call : ReadCall) (result : Option Bytes) : ReadThread :=
  { t with task := none, results := t.results ++ [(call, result)] }

def spanStep : Option ReadThread :=
  let r := t.reader
  if k.call.span ≤ k.got.length then some { t with task := some { k with ctl := .spanEnd } }
  else if r.curPos < r.curBlock.length then
    let piece := (r.curBlock.drop r.curPos).take (k.call.span - k.got.length)
    some { t with
      reader := { r with curPos := r.curPos + piece.length }
      task := some { k with got := k.got ++ piece } }
  else if r.eof || r.pipeFailed then some { t with task := some { k with ctl := .spanEnd } }
  else
    (r.advance c).map fun result =>
      { t with
        reader := result.2
        task := some { k with ctl := if result.1 then .span else .verify } }

def spanEndStep : ReadThread :=
  match k.call with
  | .readline =>
    if k.got = [] ∨ k.got = [10] then
      { t with task := some { k with out := k.out ++ k.got, got := [], ctl := .check } }
    else { t with task := some { k with out := k.out ++ k.got, got := [], ctl := .span } }
  | _ => { t with task := some { k with ctl := .check } }

def checkStep : ReadThread :=
  if t.reader.hasFailed then t.give k.call none
  else
    match k.call with
    | .readAll =>
      if k.got = [] then t.give k.call (some k.out)
      else { t with task := some { k with out := k.out ++ k.got, got := [], ctl := .span } }
    | _ => t.give k.call (some (k.out ++ k.got))

def step : Option ReadThread :=
  t.task.bind fun k =>
    match k.ctl with
    | .span => t.spanStep c k
    | .verify => some { t with reader := t.reader.verify, task := some { k with ctl := .spanEnd } }
    | .spanEnd => some (t.spanEndStep k)
    | .check => some (t.checkStep k)

end ReadThread

end Fly.Agent
