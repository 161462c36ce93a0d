import Mathlib.Data.List.Forall2
import Fly.Agent.PeerFrames
import Fly.Agent.PeerStreamReader

/-!
# What the operations of a reader deliver

The records of a stream come into the queue one after another.  The reader takes them out in that order; what
it has copied to its caller, with what its buffer still holds, is the plaintext of the records it has taken.

* `Delivers` — each operation has returned the next bytes of the payload, and an end only behind the last;
  once an operation has thrown, all throw;
* `Reads` — the state of the reader after it has taken some of the records that were put in;
* `Serves` — the thread: what it has returned and collected is what its reader has copied out;
* `Works`, `Serves.step` — **every step of an operation keeps that** and uses up some of the work;
  `Serves.enabled` — an operation waits only for a record or the end of the stream.
-/

namespace Fly.Agent

open Fly.Lib Fly.Storage List Agent.Task Nat PeerStreamReader ReadThread UInt64

/-! ### Results -/

def returnedBytes (results : List (ReadCall × Option Bytes)) : Bytes := results.flatMap fun r => r.2.getD []

/-- The operations have returned the payload piece by piece, and signalled its end only behind the last byte;
after an operation that threw, all have thrown. -/
def Delivers : Bytes → List (ReadCall × Option Bytes) → Prop
  | _, [] => True
  | _, (_, none) :: rest => ∀ r ∈ rest, r.2 = none
  | payload, (call, some bytes) :: rest =>
    ∃ more, payload = bytes ++ more ∧ (call.SignalsEnd bytes → more = []) ∧ Delivers more rest

section Results

variable {payload : Bytes} {results : List (ReadCall × Option Bytes)}

theorem Delivers.concat_throw (h : Delivers payload results) (call : ReadCall) :
    Delivers payload (results ++ [(call, none)]) := by
  induction results generalizing payload with
  | nil => exact nofun
  | cons first rest ih =>
    obtain ⟨call', _ | bytes⟩ := first
    · exact forall_mem_append.mpr ⟨h, forall_mem_singleton.mpr rfl⟩
    · obtain ⟨more, hpayload, hend, hrest⟩ := h
      exact ⟨more, hpayload, hend, ih hrest⟩

/-- One more operation returns the bytes that follow. -/
theorem Delivers.concat (h : Delivers payload results) (hall : ∀ r ∈ results, r.2 ≠ none) {call : ReadCall}
    {bytes more : Bytes} (hpayload : payload = returnedBytes results ++ (bytes ++ more))
    (hend : call.SignalsEnd bytes → more = []) : Delivers payload (results ++ [(call, some bytes)]) := by
  induction results generalizing payload with
  | nil => exact ⟨more, hpayload, hend, trivial⟩
  | cons first rest ih =>
    obtain ⟨call', _ | bytes'⟩ := first
    · exact absurd rfl (hall _ mem_cons_self)
    obtain ⟨more', hpayload', hend', hrest⟩ := h
    have hmore : more' = returnedBytes rest ++ (bytes ++ more) := by
      rw [hpayload] at hpayload'
      have hsplit : returnedBytes ((call', some bytes') :: rest) = bytes' ++ returnedBytes rest := rfl
      rw [hsplit, append_assoc] at hpayload'
      exact (append_cancel_left hpayload').symm
    exact ⟨more', hpayload', hend', ih hrest (fun r hr => hall r (mem_cons_of_mem _ hr)) hmore⟩

end Results

/-! ### The reader -/

structure Records (c : Codecs) where
  compressionType : CompressionType
  records : List Bytes
  plains : List Bytes
  isBlock : Forall₂ (IsBlock (decodeBlock c compressionType)) records plains

namespace Records

variable {c : Codecs} (S : Records c)

def payload : Bytes := S.plains.flatten

/-- The plaintext of the first `k` records. -/
def plain (k : ℕ) : Bytes := (S.plains.take k).flatten

theorem length_plains : S.plains.length = S.records.length := S.isBlock.length_eq.symm

/-- The counts of `END` are right. -/
def CountedBy (m : PeerStreamEnd) : Prop :=
  m.totalUncompressed = ofNat S.payload.length ∧ m.chunkCount = .ofNat S.records.length ∧
    m.consumed = ofNat S.records.flatten.length

theorem plain_length : S.plain S.records.length = S.payload := by
  rw [plain, ← S.length_plains, take_length, payload]

end Records

/-- The reader after `pushed` records were put into the queue and it has taken `k` of them; `out` is what it
has copied out. -/
structure Reads {c : Codecs} (S : Records c) (pushed : ℕ) (r : PeerStreamReader) (k : ℕ) (out : Bytes) :
    Prop where
  type : r.compressionType = S.compressionType
  pushed_le : pushed ≤ S.records.length
  taken_le : k ≤ pushed
  queue : r.rx.blocks = (S.records.take pushed).drop k
  qBytes : r.rx.qBytes = r.rx.blocks.flatten.length
  copied : out ++ r.curBlock.drop r.curPos = S.plain k
  mark : r.hdrPartial = false
  sound : r.pipeFailed = false
  total : r.plainTotal = .ofNat (S.plain k).length
  chunks : r.chunks = .ofNat k
  consumed : r.rx.consumed = .ofNat (S.records.take k).flatten.length
  /-- the pipeline has seen the end of the queue -/
  stopped : r.pipeEof = true → r.rx.ended = true ∧ r.rx.blocks = []
  eof : r.eof = true → r.rx.endSeen = true ∧ k = S.records.length ∧ r.curBlock.length ≤ r.curPos
  counts : r.rx.endSeen = true → pushed = S.records.length ∧
    r.rx.endTotal = .ofNat S.payload.length ∧ r.rx.endChunks = .ofNat S.records.length ∧
    r.rx.endConsumed = .ofNat S.records.flatten.length
  alive : r.rx.failed = true → r.rx.endSeen = false
  kept : r.rx.abandoned = false

namespace PeerStreamRxState

variable (rx : PeerStreamRxState)

abbrev put (record : Bytes) : PeerStreamRxState :=
  { rx with blocks := rx.blocks ++ [record], qBytes := rx.qBytes + record.length }

abbrev noteEnd (m : PeerStreamEnd) : PeerStreamRxState :=
  { rx with
    endSeen := true
    endTotal := m.totalUncompressed
    endChunks := m.chunkCount
    endConsumed := m.consumed }

end PeerStreamRxState

namespace Reads

variable {c : Codecs} {S : Records c} {pushed k : ℕ} {r r' : PeerStreamReader} {out : Bytes}

variable (h : Reads S pushed r k out)

include h

theorem ended_iff : r.rx.ended = true ↔ r.rx.endSeen = true ∨ r.rx.failed = true := by
  rw [PeerStreamRxState.ended, h.kept, Bool.or_false, Bool.or_eq_true]

theorem copy (n : ℕ) :
    Reads S pushed { r with curPos := r.curPos + ((r.curBlock.drop r.curPos).take n).length } k
      (out ++ (r.curBlock.drop r.curPos).take n) := by
  refine { h with copied := ?_, eof := fun heof => ?_ }
  · rw [← drop_drop, append_assoc, ← h.copied]
    conv_rhs => rw [← take_append_drop n (r.curBlock.drop r.curPos)]
    rw [length_take]
    rcases le_total n (r.curBlock.drop r.curPos).length with hle | hle
    · rw [min_eq_left hle]
    · rw [min_eq_right hle, drop_length, drop_of_length_le hle]
  · obtain ⟨hseen, hall, hused⟩ := h.eof heof
    exact ⟨hseen, hall, le_add_right_of_le hused⟩

/-- What the next record is, if there is one. -/
theorem next (hne : r.rx.blocks ≠ []) :
    ∃ (hrecord : k < S.records.length) (hplain : k < S.plains.length), k < pushed ∧
      r.rx.blocks = S.records[k] :: (S.records.take pushed).drop (k + 1) ∧
      IsBlock (decodeBlock c S.compressionType) S.records[k] S.plains[k] := by
  have hlt : k < pushed := by
    by_contra hge
    refine hne ?_
    rw [h.queue]
    refine drop_of_length_le ?_
    rw [length_take]
    omega
  have hpushed := h.pushed_le
  have hrecord : k < S.records.length := by omega
  have hplain : k < S.plains.length := by rw [S.length_plains]; exact hrecord
  refine ⟨hrecord, hplain, hlt, ?_, List.Forall₂.get S.isBlock hrecord hplain⟩
  have hk : k < (S.records.take pushed).length := by rw [length_take]; omega
  rw [h.queue, drop_eq_getElem_cons hk, getElem_take]

theorem taken_all (hempty : r.rx.blocks = []) : k = pushed := by
  have hqueue := h.queue
  have hpushed := h.pushed_le
  have htaken := h.taken_le
  rw [hempty] at hqueue
  have hlength := drop_eq_nil_iff.mp hqueue.symm
  rw [length_take] at hlength
  omega

/-- **The reader goes on**: it takes the next record and decodes it, or it waits, or it finds that the stream
has ended. -/
theorem advance (hused : r.curBlock.length ≤ r.curPos) :
    (∃ hplain : k < S.plains.length, ∃ r', r.rx.blocks ≠ [] ∧ r.advance c = some (true, r') ∧
        r'.rx.blocks.length + 1 = r.rx.blocks.length ∧ r'.curBlock = S.plains[k] ∧ r'.curPos = 0 ∧
        r'.eof = r.eof ∧ r'.rx.failed = r.rx.failed ∧ r'.rx.endSeen = r.rx.endSeen ∧
        Reads S pushed r' (k + 1) out) ∨
      (r.rx.blocks = [] ∧ r.rx.ended = true ∧ r.advance c = some (false, { r with pipeEof := true })) ∨
      (r.rx.blocks = [] ∧ r.rx.ended = false ∧ r.advance c = none) := by
  have hout : out = S.plain k := by
    have hcopied := h.copied
    rwa [drop_of_length_le hused, append_nil] at hcopied
  by_cases hempty : r.rx.blocks = []
  · have hadvance := advance_of_empty (c := c) hused h.mark h.sound hempty
    cases hended : r.rx.ended with
    | true =>
      refine .inr (.inl ⟨hempty, rfl, ?_⟩)
      rw [hadvance, hended, Bool.or_true, if_pos rfl]
    | false =>
      have hstopped : r.pipeEof = false := by
        cases heof : r.pipeEof with
        | false => rfl
        | true =>
          have := (h.stopped heof).1
          rw [hended] at this
          cases this
      refine .inr (.inr ⟨hempty, rfl, ?_⟩)
      rw [hadvance, hended, hstopped]
      rfl
  · obtain ⟨hrecord, hplain, hlt, hblocks, hblock⟩ := h.next hempty
    have hstopped : r.pipeEof = false := by
      cases heof : r.pipeEof with
      | false => rfl
      | true => exact absurd (h.stopped heof).2 hempty
    rw [← h.type] at hblock
    have hadvance := advance_of_record hused h.sound hstopped hblocks hblock
    have hplains : S.plain (k + 1) = S.plain k ++ S.plains[k] := by
      rw [Records.plain, take_succ_eq_append_getElem hplain, flatten_append, flatten_singleton]
      rfl
    refine .inl ⟨hplain, _, hempty, hadvance, ?_, rfl, rfl, rfl, rfl, rfl, ?_⟩
    · rw [hblocks]
      rfl
    · refine ⟨h.type, h.pushed_le, hlt, rfl, ?_, ?_, rfl, h.sound, ?_, ?_, ?_, ?_, ?_, h.counts, h.alive,
        h.kept⟩
      · show r.rx.qBytes - S.records[k].length = _
        rw [h.qBytes, hblocks, flatten_cons, length_append, Nat.add_sub_cancel_left]
        rfl
      · rw [hout, drop_zero, hplains]
      · rw [h.total, hplains, length_append, ofNat_add]
      · rw [h.chunks, UInt32.ofNat_add]
        rfl
      · show r.rx.consumed + _ = _
        rw [h.consumed, take_succ_eq_append_getElem hrecord, flatten_append, flatten_singleton,
          length_append, ofNat_add]
      · exact fun heof => absurd (hstopped.symm.trans heof) Bool.false_ne_true
      · intro heof
        obtain ⟨hseen, hall, -⟩ := h.eof heof
        omega

theorem stop (hempty : r.rx.blocks = []) (hended : r.rx.ended = true) :
    Reads S pushed { r with pipeEof := true } k out :=
  { h with stopped := fun _ => ⟨hended, hempty⟩ }

/-- **The verification** accepts the end of a stream whose `END` was seen, and nothing else. -/
theorem verify (hused : r.curBlock.length ≤ r.curPos) (hempty : r.rx.blocks = [])
    (hended : r.rx.ended = true) :
    Reads S pushed r.verify k out ∧ (r.verify.eof = true ∨ r.verify.rx.failed = true) ∧
      r.verify.rx.blocks = r.rx.blocks ∧ r.verify.rx.failed = r.rx.failed ∧
      r.verify.rx.endSeen = r.rx.endSeen ∧ r.verify.curBlock = r.curBlock ∧ r.verify.curPos = r.curPos := by
  have hall := h.taken_all hempty
  cases hseen : r.rx.endSeen with
  | true =>
    obtain ⟨hpushed, htotal, hchunks, hconsumed⟩ := h.counts hseen
    have hk : k = S.records.length := hall.trans hpushed
    have hcheck :
        (!r.pipeFailed && r.rx.endSeen && r.plainTotal == r.rx.endTotal && r.chunks == r.rx.endChunks
        && r.rx.consumed == r.rx.endConsumed) = true := by
      rw [h.sound, hseen, h.total, htotal, h.chunks, hchunks, h.consumed, hconsumed, hk, take_length,
        S.plain_length]
      simp
    have hverify : r.verify = { r with eof := true } := if_pos hcheck
    rw [hverify]
    exact ⟨{ h with eof := fun _ => ⟨hseen, hk, hused⟩ }, .inl rfl, rfl, rfl, hseen, rfl, rfl⟩
  | false =>
    have hfailed : r.rx.failed = true := by
      rcases h.ended_iff.mp hended with hend | hfail
      · rw [hseen] at hend
        cases hend
      · exact hfail
    have hcheck : ¬(!r.pipeFailed && r.rx.endSeen && r.plainTotal == r.rx.endTotal &&
        r.chunks == r.rx.endChunks && r.rx.consumed == r.rx.endConsumed) = true := by
      rw [hseen, Bool.and_false]
      simp
    have hverify : r.verify = { r with rx := { r.rx with failed := true } } := if_neg hcheck
    have hsame : ({ r with rx := { r.rx with failed := true } } : PeerStreamReader) = r := by
      rw [← hfailed]
    rw [hverify, hsame]
    exact ⟨h, .inr hfailed, rfl, rfl, hseen, rfl, rfl⟩

/-! What the network thread does to the shared state. -/

theorem push (hlt : pushed < S.records.length) (hopen : r.rx.ended = false) :
    Reads S (pushed + 1) { r with rx := r.rx.put S.records[pushed] } k out := by
  have hseen : ¬r.rx.endSeen = true := by
    intro hend
    rw [h.ended_iff.mpr (.inl hend)] at hopen
    cases hopen
  have htaken := h.taken_le
  refine { h with
    pushed_le := hlt
    taken_le := le_succ_of_le htaken
    queue := ?_
    qBytes := ?_
    stopped := fun heof => ?_
    counts := fun hend => absurd hend hseen }
  · show r.rx.blocks ++ _ = _
    rw [h.queue, take_succ_eq_append_getElem hlt, drop_append_of_le_length]
    rw [length_take]
    omega
  · show r.rx.qBytes + _ = (r.rx.blocks ++ _).flatten.length
    rw [h.qBytes, flatten_append, flatten_singleton, length_append]
  · rw [(h.stopped heof).1] at hopen
    cases hopen

/-- `END` is noted, behind the last record. -/
theorem finish (hall : pushed = S.records.length) (hopen : r.rx.failed = false)
    {m : PeerStreamEnd} (hm : S.CountedBy m) : Reads S pushed { r with rx := r.rx.noteEnd m } k out := by
  exact { h with
    stopped := fun heof => ⟨rfl, (h.stopped heof).2⟩
    eof := fun heof => ⟨rfl, (h.eof heof).2⟩
    counts := fun _ => ⟨hall, hm⟩
    alive := fun hfailed => absurd (hopen.symm.trans hfailed) Bool.false_ne_true }

/-- The stream has failed before its `END`. -/
theorem fail (hopen : r.rx.endSeen = false) :
    Reads S pushed { r with rx := { r.rx with failed := true } } k out := by
  refine { h with stopped := fun heof => ⟨?_, (h.stopped heof).2⟩, alive := fun _ => hopen }
  show (r.rx.endSeen || true || r.rx.abandoned) = true
  rw [Bool.or_true, Bool.true_or]

end Reads

/-! ### The thread -/

/-- The end, clean or not, has been found. -/
def PeerStreamReader.Done (r : PeerStreamReader) : Prop := r.eof = true ∨ r.rx.failed = true

/-- What an operation knows where it stands. -/
def Task.Knows (r : PeerStreamReader) (k : Task) : Ctl → Prop
  | .span => True
  | .verify => r.rx.ended = true ∧ r.rx.blocks = [] ∧ r.curBlock.length ≤ r.curPos
  | .spanEnd => k.call.span ≤ k.got.length ∨ r.Done
  | .check => (k.call ≠ .readline → k.call.span ≤ k.got.length ∨ r.Done) ∧
    (k.call = .readline → k.got = [] ∧ (k.out.getLast? = some 10 ∨ r.Done))

structure Task.Stands (r : PeerStreamReader) (k : Task) : Prop where
  got_le : k.got.length ≤ k.call.span
  /-- only `readline` and `read_all` collect -/
  single : ∀ n, k.call = .read n ∨ k.call = .readinto n → k.out = []
  knows : k.Knows r k.ctl

def Ctl.rank : Ctl → ℕ
  | span => 5
  | verify => 4
  | spanEnd => 3
  | check => 2

def Task.rank (k : Task) : ℕ := 4 * k.got.length + k.ctl.rank

/-- What is there to be copied, if no record has more than `bound` bytes of plaintext. -/
def PeerStreamReader.work (bound : ℕ) (r : PeerStreamReader) : ℕ :=
  (8 * bound + 1) * r.rx.blocks.length + 8 * (r.curBlock.length - r.curPos)

/-- How many steps the thread can still make with what is there. -/
def ReadThread.work (bound : ℕ) (t : ReadThread) : ℕ := t.reader.work bound + (t.task.map rank).getD 0

abbrev ReadThread.withRx (t : ReadThread) (rx : PeerStreamRxState) : ReadThread :=
  { t with reader := { t.reader with rx } }

def ReadThread.collected (t : ReadThread) : Bytes := (t.task.map fun k => k.out ++ k.got).getD []

/-- The thread with its reader: all that was copied out was returned or is being collected, unless an
operation has thrown. -/
structure Serves {c : Codecs} (S : Records c) (pushed : ℕ) (t : ReadThread) (k : ℕ) (out : Bytes) : Prop where
  reads : Reads S pushed t.reader k out
  delivers : Delivers S.payload t.results
  thrown : (∃ r ∈ t.results, r.2 = none) → t.reader.rx.failed = true
  returned : (∀ r ∈ t.results, r.2 ≠ none) → out = returnedBytes t.results ++ t.collected
  task : ∀ task, t.task = some task → task.Stands t.reader

/-- A step of the thread: it keeps the flags of the stream, and uses up some of the work. -/
structure Works {c : Codecs} (S : Records c) (pushed bound : ℕ) (t t' : ReadThread) : Prop where
  serves : ∃ k out, Serves S pushed t' k out
  failed : t'.reader.rx.failed = t.reader.rx.failed
  endSeen : t'.reader.rx.endSeen = t.reader.rx.endSeen
  work : t'.work bound < t.work bound

namespace Serves

variable {c : Codecs} {S : Records c} {pushed k bound : ℕ} {t t' : ReadThread} {out : Bytes} {task : Task}

theorem work_eq (bound : ℕ) (htask : t.task = some task) :
    t.work bound = t.reader.work bound + (4 * task.got.length + task.ctl.rank) := by
  rw [ReadThread.work, htask]
  rfl

theorem gives (htask : t.task = some task) {result : Option Bytes}
    (hserves : Serves S pushed (t.give task.call result) k out) :
    Works S pushed bound t (t.give task.call result) := by
  refine ⟨⟨k, out, hserves⟩, rfl, rfl, ?_⟩
  rw [work_eq bound htask]
  refine Nat.lt_add_of_pos_right (Nat.add_pos_right _ ?_)
  cases task.ctl <;> decide

variable (h : Serves S pushed t k out)

include h

/-- The thread goes on with an operation: what it has copied since is added to what was collected. -/
theorem goesOn {r : PeerStreamReader} {k' : ℕ} {piece : Bytes} (hreads : Reads S pushed r k' (out ++ piece))
    (hfailed : r.rx.failed = t.reader.rx.failed) (hseen : r.rx.endSeen = t.reader.rx.endSeen)
    (htask : t.task = some task) {task' : Task}
    (hcollected : task'.out ++ task'.got = task.out ++ task.got ++ piece)
    (hstands : task'.Stands r) (hwork : r.work bound + task'.rank < t.reader.work bound + task.rank) :
    Works S pushed bound t { t with reader := r, task := some task' } := by
  refine ⟨⟨k', _, hreads, h.delivers, fun hthrown => ?_, fun hall => ?_, fun x hx => ?_⟩, hfailed, hseen, ?_⟩
  · rw [hfailed]
    exact h.thrown hthrown
  · have hbefore : t.collected = task.out ++ task.got := by rw [collected, htask]; rfl
    have hafter : ({ t with reader := r, task := some task' } : ReadThread).collected =
        task'.out ++ task'.got := rfl
    rw [hafter, hcollected, h.returned hall, hbefore]
    simp only [append_assoc]
  · cases hx
    exact hstands
  · rw [work_eq bound htask]
    exact hwork

/-- Nothing is copied. -/
theorem moved {r : PeerStreamReader} {k' : ℕ} (hreads : Reads S pushed r k' out)
    (hfailed : r.rx.failed = t.reader.rx.failed) (hseen : r.rx.endSeen = t.reader.rx.endSeen)
    (htask : t.task = some task) {task' : Task} (hcollected : task'.out ++ task'.got = task.out ++ task.got)
    (hstands : task'.Stands r) (hwork : r.work bound + task'.rank < t.reader.work bound + task.rank) :
    Works S pushed bound t { t with reader := r, task := some task' } :=
  h.goesOn ((append_nil out).symm ▸ hreads) hfailed hseen htask (hcollected.trans (append_nil _).symm) hstands
    hwork

/-- A step of the copying loop. -/
theorem spanStep (hbound : ∀ plain ∈ S.plains, plain.length ≤ bound) (htask : t.task = some task)
    (hctl : task.ctl = .span) (hstep : t.spanStep c task = some t') : Works S pushed bound t t' := by
  have hstands := h.task task htask
  have hrank : task.rank = 4 * task.got.length + 5 := by rw [Task.rank, hctl]; rfl
  have hleave : task.call.span ≤ task.got.length ∨ t.reader.Done →
      Works S pushed bound t { t with task := some { task with ctl := .spanEnd } } := by
    refine fun hend => h.moved h.reads rfl rfl htask rfl ⟨hstands.got_le, hstands.single, hend⟩ ?_
    rw [hrank]
    show _ + (4 * task.got.length + 3) < _
    omega
  unfold ReadThread.spanStep at hstep
  dsimp only at hstep
  split at hstep
  · next hfull =>
    cases hstep
    exact hleave (.inl hfull)
  · next hmore =>
    split at hstep
    · -- what the buffer holds is copied
      cases hstep
      have hpiece :
          ((t.reader.curBlock.drop t.reader.curPos).take (task.call.span - task.got.length)).length =
          min (task.call.span - task.got.length) (t.reader.curBlock.length - t.reader.curPos) := by
        rw [length_take, length_drop]
      have hcopy := h.reads.copy (task.call.span - task.got.length)
      generalize (t.reader.curBlock.drop t.reader.curPos).take (task.call.span - task.got.length) = piece
        at hpiece hcopy
      have hgot : (task.got ++ piece).length = task.got.length + piece.length := length_append
      refine h.goesOn hcopy rfl rfl htask (append_assoc _ _ _).symm ⟨?_, hstands.single, ?_⟩ ?_
      · show (task.got ++ piece).length ≤ task.call.span
        omega
      · show Knows _ _ task.ctl
        rw [hctl]
        trivial
      · have hcopied : work bound { t.reader with curPos := t.reader.curPos + piece.length } +
            8 * piece.length = t.reader.work bound := by
          unfold PeerStreamReader.work
          dsimp only
          omega
        rw [hrank]
        show work bound { t.reader with curPos := t.reader.curPos + piece.length } +
          (4 * (task.got ++ piece).length + task.ctl.rank) < _
        rw [hgot, hctl]
        show _ + (4 * (task.got.length + piece.length) + 5) < _
        omega
    · next hused =>
      have hused' := not_lt.mp hused
      split at hstep
      · next hdone =>
        have heof : t.reader.eof = true := by rwa [h.reads.sound, Bool.or_false] at hdone
        cases hstep
        exact hleave (.inr (.inl heof))
      · rcases h.reads.advance hused' with
          ⟨hplain, r', -, hadvance, hblocks, hcur, hpos, -, hfailed, hseen, hreads⟩ |
          ⟨hempty, hended, hadvance⟩ | ⟨-, -, hadvance⟩ <;> rw [hadvance] at hstep <;> cases hstep
        · refine h.moved hreads hfailed hseen htask rfl ⟨hstands.got_le, hstands.single, trivial⟩ ?_
          have hlength := hbound _ (getElem_mem hplain)
          have htaken : r'.work bound < t.reader.work bound := by
            unfold PeerStreamReader.work
            rw [← hblocks, hcur, hpos, mul_add]
            omega
          rw [hrank]
          exact Nat.add_lt_add_right htaken _
        · refine h.moved (h.reads.stop hempty hended) rfl rfl htask rfl
            ⟨hstands.got_le, hstands.single, hended, hempty, hused'⟩ ?_
          rw [hrank]
          show t.reader.work bound + (4 * task.got.length + 4) < _
          omega

theorem spanEndStep (htask : t.task = some task) (hctl : task.ctl = .spanEnd) :
    Works S pushed bound t (t.spanEndStep task) := by
  have hstands := h.task task htask
  have hend : task.call.span ≤ task.got.length ∨ t.reader.Done := by
    have hknows := hstands.knows
    rwa [hctl] at hknows
  have hrank : task.rank = 4 * task.got.length + 3 := by rw [Task.rank, hctl]; rfl
  unfold ReadThread.spanEndStep
  split
  · next hcall =>
    have hsingle : ∀ (n : ℕ) (o : Bytes), task.call = .read n ∨ task.call = .readinto n → o = [] := by
      intro n o hread
      rw [hcall] at hread
      rcases hread with hread | hread <;> cases hread
    split
    · next hgot =>
      -- the line ends, or there is nothing more
      refine h.moved h.reads rfl rfl htask (append_nil _)
        ⟨zero_le _, fun n => hsingle n _, fun hcall' => absurd hcall hcall', fun _ => ⟨rfl, ?_⟩⟩ ?_
      · rcases hgot with hnil | hnewline
        · rcases hend with hfull | hdone
          · rw [hcall, hnil] at hfull
            exact absurd hfull (by decide)
          · exact .inr hdone
        · refine .inl ?_
          rw [hnewline, getLast?_append]
          rfl
      · rw [hrank]
        show _ + (4 * 0 + 2) < _
        omega
    · next hgot =>
      have hpos : 0 < task.got.length := length_pos_iff.mpr fun hnil => hgot (.inl hnil)
      refine h.moved h.reads rfl rfl htask (append_nil _) ⟨zero_le _, fun n => hsingle n _, trivial⟩ ?_
      rw [hrank]
      show _ + (4 * 0 + 5) < _
      omega
  · next hcall =>
    refine h.moved h.reads rfl rfl htask rfl
      ⟨hstands.got_le, hstands.single, fun _ => hend, fun hline => absurd hline hcall⟩ ?_
    rw [hrank]
    show _ + (4 * task.got.length + 2) < _
    omega

theorem throws (hfailed : t.reader.rx.failed = true) (call : ReadCall) :
    Serves S pushed (t.give call none) k out := by
  refine ⟨h.reads, h.delivers.concat_throw call, fun _ => hfailed, ?_, nofun⟩
  intro hall
  exact absurd rfl (hall (call, none) (mem_append_right _ (mem_singleton_self _)))

theorem returns (htask : t.task = some task) (hok : t.reader.hasFailed = false)
    (hend : task.call.SignalsEnd (task.out ++ task.got) → t.reader.Done) :
    Serves S pushed (t.give task.call (some (task.out ++ task.got))) k out := by
  have heof : t.reader.rx.failed = true → t.reader.eof = true := by
    intro hfailed
    rw [PeerStreamReader.hasFailed, hfailed, Bool.true_and] at hok
    simpa using hok
  -- no operation has thrown: a failed stream never comes to a clean end
  have hnone : ∀ r ∈ t.results, r.2 ≠ none := by
    intro r hr hthrew
    have hfailed := h.thrown ⟨r, hr, hthrew⟩
    have hseen := (h.reads.eof (heof hfailed)).1
    rw [h.reads.alive hfailed] at hseen
    cases hseen
  have hout := h.returned hnone
  rw [collected, htask] at hout
  have hpayload : S.payload = returnedBytes t.results ++ (task.out ++ task.got ++
      (t.reader.curBlock.drop t.reader.curPos ++ (S.plains.drop k).flatten)) := by
    have hcopied := h.reads.copied
    rw [hout] at hcopied
    rw [Records.payload, ← take_append_drop k S.plains, flatten_append]
    show S.plain k ++ _ = _
    rw [← hcopied]
    simp [append_assoc]
  refine ⟨h.reads, h.delivers.concat hnone hpayload ?_, ?_, ?_, nofun⟩
  · intro hsignal
    have hclean : t.reader.eof = true := (hend hsignal).elim id heof
    obtain ⟨-, hk, hused⟩ := h.reads.eof hclean
    rw [drop_of_length_le hused, hk, ← S.length_plains, drop_length]
    rfl
  · rintro ⟨r, hr, hthrew⟩
    rcases mem_append.mp hr with hold | hnew
    · exact absurd hthrew (hnone r hold)
    · rw [mem_singleton.mp hnew] at hthrew
      cases hthrew
  · intro _
    show out = returnedBytes (t.results ++ [(task.call, some (task.out ++ task.got))]) ++ []
    rw [append_nil, returnedBytes, flatMap_append, flatMap_singleton]
    exact hout

theorem checkStep (htask : t.task = some task) (hctl : task.ctl = .check) :
    Works S pushed bound t (t.checkStep task) := by
  have hstands := h.task task htask
  obtain ⟨hcheck, hline⟩ : Knows t.reader task .check := by
    have hknows := hstands.knows
    rwa [hctl] at hknows
  unfold ReadThread.checkStep
  split
  · next hfailed =>
    rw [hasFailed, Bool.and_eq_true] at hfailed
    exact gives htask (h.throws hfailed.1 task.call)
  · next hok =>
    have hok' : t.reader.hasFailed = false := by simpa using hok
    split
    · next hcall =>
      split
      · next hgot =>
        have hreturns := h.returns htask hok' (fun _ => ?_)
        · rw [hgot, append_nil] at hreturns
          exact gives htask hreturns
        · rcases hcheck (by rw [hcall]; decide) with hfull | hdone
          · rw [hcall, hgot] at hfull
            exact absurd hfull (by decide)
          · exact hdone
      · next hgot =>
        have hpos : 0 < task.got.length := length_pos_iff.mpr hgot
        refine h.moved h.reads rfl rfl htask (append_nil _) ⟨zero_le _, fun n hread => ?_, trivial⟩ ?_
        · have hread' : task.call = .read n ∨ task.call = .readinto n := hread
          rw [hcall] at hread'
          rcases hread' with hread' | hread' <;> cases hread'
        · rw [Task.rank, Task.rank, hctl]
          show _ + (4 * 0 + 5) < _ + (_ + 2)
          omega
    · next hcall =>
      refine gives htask (h.returns htask hok' fun hsignal => ?_)
      cases hkind : task.call with
      | readAll => exact absurd hkind hcall
      | readline =>
        obtain ⟨hgot, hdone⟩ := hline hkind
        rw [hkind, hgot, append_nil] at hsignal
        exact hdone.resolve_left hsignal
      | read n | readinto n =>
        have hout := hstands.single n (by rw [hkind]; simp)
        rw [hkind, hout, nil_append] at hsignal
        refine (hcheck (by rw [hkind]; simp)).resolve_left ?_
        rw [hkind]
        exact not_le.mpr hsignal

/-- **Every step of the thread keeps it**, leaves the flags of the stream alone, and uses up some of the
work. -/
theorem step (hbound : ∀ plain ∈ S.plains, plain.length ≤ bound) (hstep : t.step c = some t') :
    Works S pushed bound t t' := by
  obtain ⟨task, htask, hstep⟩ := Option.bind_eq_some_iff.mp hstep
  have hstands := h.task task htask
  cases hctl : task.ctl with
  | span =>
    rw [hctl] at hstep
    exact h.spanStep hbound htask hctl hstep
  | verify =>
    rw [hctl] at hstep
    cases hstep
    obtain ⟨hended, hempty, hused⟩ : Knows t.reader task .verify := by
      have hknows := hstands.knows
      rwa [hctl] at hknows
    obtain ⟨hreads, hdone, hblocks, hfailed, hseen, hcur, hpos⟩ := h.reads.verify hused hempty hended
    refine h.moved hreads hfailed hseen htask rfl ⟨hstands.got_le, hstands.single, .inr hdone⟩ ?_
    rw [PeerStreamReader.work, hblocks, hcur, hpos, Task.rank, Task.rank, hctl]
    show t.reader.work bound + (4 * task.got.length + 3) < t.reader.work bound + (4 * task.got.length + 4)
    omega
  | spanEnd =>
    rw [hctl] at hstep
    cases hstep
    exact h.spanEndStep htask hctl
  | check =>
    rw [hctl] at hstep
    cases hstep
    exact h.checkStep htask hctl

/-! What the network thread does, and how long an operation can take. -/

/-- A change of the shared state that keeps what the reader knows. -/
theorem shared {rx : PeerStreamRxState} {pushed' : ℕ} (hreads : Reads S pushed' { t.reader with rx } k out)
    (hfailed : t.reader.rx.failed = true → rx.failed = true)
    (hended : t.reader.rx.ended = true → t.reader.rx.blocks = [] → rx.ended = true ∧ rx.blocks = []) :
    Serves S pushed' (t.withRx rx) k out := by
  have hdone : t.reader.Done → ({ t.reader with rx } : PeerStreamReader).Done := Or.imp_right hfailed
  refine ⟨hreads, h.delivers, fun hthrown => hfailed (h.thrown hthrown), h.returned, ?_⟩
  intro task htask
  have hstands := h.task task htask
  refine ⟨hstands.got_le, hstands.single, ?_⟩
  have hknows := hstands.knows
  revert hknows
  cases task.ctl with
  | span => exact id
  | verify =>
    rintro ⟨hend, hempty, hused⟩
    obtain ⟨hend', hempty'⟩ := hended hend hempty
    exact ⟨hend', hempty', hused⟩
  | spanEnd => exact Or.imp_right hdone
  | check =>
    rintro ⟨hcheck, hline⟩
    exact ⟨fun hcall => (hcheck hcall).imp_right hdone,
      fun hcall => (hline hcall).imp_right (Or.imp_right hdone)⟩

theorem push (hlt : pushed < S.records.length) (hopen : t.reader.rx.ended = false) :
    Serves S (pushed + 1) (t.withRx (t.reader.rx.put S.records[pushed])) k out := by
  refine h.shared (h.reads.push hlt hopen) id ?_
  intro hended
  rw [hopen] at hended
  cases hended

theorem finish (hall : pushed = S.records.length) (hopen : t.reader.rx.failed = false) {m : PeerStreamEnd}
    (hm : S.CountedBy m) : Serves S pushed (t.withRx (t.reader.rx.noteEnd m)) k out := by
  refine h.shared (h.reads.finish hall hopen hm) ?_ fun _ hempty => ⟨rfl, hempty⟩
  rw [hopen]
  exact nofun

theorem fail (hopen : t.reader.rx.endSeen = false) :
    Serves S pushed (t.withRx { t.reader.rx with failed := true }) k out := by
  refine h.shared (h.reads.fail hopen) (fun _ => rfl) fun _ hempty => ⟨?_, hempty⟩
  show (t.reader.rx.endSeen || true || t.reader.rx.abandoned) = true
  rw [Bool.or_true, Bool.true_or]

theorem begin (hidle : t.task = none) (call : ReadCall) :
    Serves S pushed { t with task := some { call } } k out := by
  refine ⟨h.reads, h.delivers, h.thrown, ?_, ?_⟩
  · intro hall
    have hout := h.returned hall
    rw [collected, hidle] at hout
    exact hout
  · intro task htask
    cases htask
    exact ⟨zero_le _, fun _ _ => rfl, trivial⟩

/-- An operation waits only for a record, or for the end of the stream. -/
theorem enabled (htask : t.task = some task) (hwaits : t.step c = none) :
    t.reader.rx.blocks = [] ∧ t.reader.rx.ended = false := by
  rw [ReadThread.step, htask, Option.bind_some] at hwaits
  cases hctl : task.ctl with
  | verify | spanEnd | check =>
    rw [hctl] at hwaits
    cases hwaits
  | span =>
    rw [hctl] at hwaits
    unfold ReadThread.spanStep at hwaits
    dsimp only at hwaits
    split at hwaits
    · cases hwaits
    split at hwaits
    · cases hwaits
    rename_i hused
    split at hwaits
    · cases hwaits
    rcases h.reads.advance (not_lt.mp hused) with
      ⟨-, r', -, hadvance, -⟩ | ⟨-, -, hadvance⟩ | ⟨hempty, hopen, -⟩
    · rw [hadvance] at hwaits
      cases hwaits
    · rw [hadvance] at hwaits
      cases hwaits
    · exact ⟨hempty, hopen⟩

end Serves

end Fly.Agent
