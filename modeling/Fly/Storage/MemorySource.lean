import Mathlib.Data.List.Basic
import Fly.Storage.Record
import Fly.Storage.StreamRead

/-!
# Reading a record from memory

`MemoryChunkSource` is given a whole record.  It parses the trailer, checks the table of the trailer
against the headers in the block area, and hands out the block area.

* `reconcile`, `parseTrailer`, `source` — the checks and the source;
* `ReadsBack` — a reader of the record gets the given bytes, and no failure, however it reads;
* `nextBlock_cases` — the pipeline on an area of stored blocks: it gives their plaintexts one by one, or it
  fails at a block that is too large or whose stages fail;
* `readsBack_iff` — the record reads back as the bytes **iff** no block fails and the plaintexts of the
  blocks are the bytes.
-/

namespace Fly.Storage

open Fly.Lib List StoredBlock Nat

structure MemoryChunkSource where
  data : Bytes
  /-- why the source has failed; none if it has not -/
  failureDetail : Option String := none
  blockAreaLen : ℕ := 0
  pyName : Bytes := []
  totalUncompressed : ℕ := 0
  chunkCount : ℕ := 0
  compressionType : CompressionType := .none

namespace MemoryChunkSource

/-- The walk over the block headers: every stored length is a nonnegative `int32_t` and the entry of the
table, and the last block ends with the area. -/
def reconcile (area : Bytes) : List ℕ → ℕ → Option String
  | [], pos => if pos = area.length then none else some "integrity: block area length mismatch"
  | len :: lens, pos =>
    if area.length < pos + 16 then some "integrity: block header out of range"
    else
      let comp := (BlockHeader.read (area.drop pos)).compSize
      if 2 ^ 31 ≤ comp ∨ comp ≠ len then some "integrity: block table reconciliation mismatch"
      else reconcile area lens (pos + 16 + comp)

def parseTrailer (c : Codecs) (data : Bytes) : MemoryChunkSource :=
  -- no input is a legal empty stream
  if data = [] then { data }
  else
    match ObjectHeader.deserializeTrailer c data with
    | none => { data, failureDetail := some "integrity: trailer parse failed" }
    | some (header, trailerLen) =>
      { data
        failureDetail :=
          if header.blockCompLens.length ≠ header.chunkCount then
            some "integrity: block table size mismatch"
          else reconcile (data.take (data.length - trailerLen)) header.blockCompLens 0
        blockAreaLen := data.length - trailerLen
        pyName := header.pyName
        totalUncompressed := header.totalSize
        chunkCount := header.chunkCount
        compressionType := header.compressionType }

/-- An area with the trailer that was written behind it. -/
theorem parseTrailer_append (c : Codecs) {header : ObjectHeader} (hfits : header.Fits) (area : Bytes) :
    parseTrailer c (area ++ header.serializeTrailer c) =
      { data := area ++ header.serializeTrailer c
        failureDetail := reconcile area header.blockCompLens 0
        blockAreaLen := area.length
        pyName := header.pyName
        totalUncompressed := header.totalSize
        chunkCount := header.chunkCount
        compressionType := header.compressionType } := by
  have hread := ObjectHeader.deserializeTrailer_append c hfits area
  have hne : area ++ header.serializeTrailer c ≠ [] := by
    intro hnil
    rw [hnil] at hread
    cases hread
  rw [parseTrailer, if_neg hne, hread]
  dsimp only
  rw [if_neg (by simpa using hfits.count.symm), length_append, Nat.add_sub_cancel, take_left]

variable (m : MemoryChunkSource)

def failed : Bool := m.failureDetail.isSome

/-- The state is the position. -/
def source : Source ℕ where
  pull pos n :=
    if m.failed then (none, pos)
    else
      let take := min n (m.blockAreaLen - pos)
      (some ((m.data.drop pos).take take), pos + take)
  pull_length pos n := by
    split
    · exact zero_le n
    · exact (length_take_le _ _).trans (min_le_left _ _)

def blockArea : Bytes := m.data.take m.blockAreaLen

def stream : DecompressingStreamBuf ℕ m.blockAreaLen :=
  .start m.blockAreaLen 0 m.failed

open DecompressingStreamBuf in
/-- However the record is read: there is no failure, what was delivered is the beginning of the bytes, and
it is all of them when the reader sees the end. -/
def ReadsBack (decode : BlockHeader → Bytes → Option Bytes) (bytes : Bytes) : Prop :=
  ∀ requests, (serveAll m.source decode m.stream requests).2.checksumFailed = false ∧
    (serveAll m.source decode m.stream requests).1 <+: bytes ∧
    ∀ q, (serve m.source decode (serveAll m.source decode m.stream requests).2 q).ended = true →
      (serveAll m.source decode m.stream requests).1 ++
        (serve m.source decode (serveAll m.source decode m.stream requests).2 q).out = bytes

end MemoryChunkSource

namespace StoredBlock

/-- The sizes in the header are those of the block, and within what a table entry can say. -/
structure Aligned (b : StoredBlock) : Prop where
  uncSize : b.header.uncSize < 2 ^ 32
  compSize : b.header.compSize = b.payload.length
  payload : b.payload.length < 2 ^ 31

/-- A reader accepts the block. -/
structure Sound (decode : BlockHeader → Bytes → Option Bytes) (b : StoredBlock) : Prop where
  uncSize : b.header.uncSize ≤ kMaxWireBlockBytes
  compSize : b.header.compSize ≤ kMaxWireBlockBytes
  decoded : decode b.header b.payload ≠ none

end StoredBlock

namespace MemoryChunkSource

open DecompressingStreamBuf

/-! ### The table -/

/-- A table that is accepted accounts for the whole area. -/
theorem length_of_reconcile {area : Bytes} {lens : List ℕ} {pos : ℕ} (h : reconcile area lens pos = none) :
    pos + (lens.map (16 + ·)).sum = area.length ∧ ∀ len ∈ lens, len < 2 ^ 31 := by
  induction lens generalizing pos with
  | nil =>
    rw [reconcile] at h
    split at h
    · next hpos => exact ⟨hpos, nofun⟩
    · cases h
  | cons len lens ih =>
    rw [reconcile] at h
    split at h
    · cases h
    dsimp only at h
    split at h
    · cases h
    rename_i hcomp
    obtain ⟨hlength, hlens⟩ := ih h
    rw [not_or, not_le, not_not] at hcomp
    refine ⟨?_, forall_mem_cons.mpr ⟨hcomp.2 ▸ hcomp.1, hlens⟩⟩
    rw [map_cons, sum_cons]
    omega

/-- The table of aligned blocks is accepted. -/
theorem reconcile_of_aligned (front : Bytes) (blocks : List StoredBlock)
    (haligned : ∀ b ∈ blocks, b.Aligned) :
    reconcile (front ++ blocks.flatMap bytes) (blocks.map fun b => b.header.compSize)
      front.length = none := by
  induction blocks generalizing front with
  | nil => simp [reconcile]
  | cons b blocks ih =>
    have hb := haligned b mem_cons_self
    have hsmall := hb.payload
    have hrest := ih (front ++ b.bytes) fun x hx => haligned x (mem_cons_of_mem b hx)
    rw [append_assoc] at hrest
    have hread : .read ((front ++ (b.bytes ++ blocks.flatMap bytes)).drop front.length) = b.header := by
      rw [drop_left, bytes, append_assoc]
      exact BlockHeader.read_bytes_append hb.uncSize (by have := hb.compSize; omega) _
    rw [flatMap_cons, map_cons, reconcile, if_neg ?_]
    · rw [hread, if_neg (by have := hb.compSize; omega), hb.compSize, add_assoc,
        ← b.length_bytes, ← length_append]
      exact hrest
    · rw [length_append, length_append, b.length_bytes]
      omega

/-! ### Reading the area -/

variable {m : MemoryChunkSource} {decode : BlockHeader → Bytes → Option Bytes}

/-- The position is behind what was taken, and `rest` is what is left of the area. -/
structure InStep (m : MemoryChunkSource) (w : Window ℕ m.blockAreaLen) (rest : Bytes) : Prop where
  position : w.source = w.taken.length
  area : m.blockArea = w.taken ++ rest

/-- As many bytes as are left are handed out at once. -/
theorem pullExact_inStep (hok : m.failed = false) (got rest : Bytes) (part : Bool)
    {w : Window ℕ m.blockAreaLen} (h : InStep m w (got ++ rest)) :
    ∃ w', pullExact (m.source.bounded m.blockAreaLen) got.length part w = ⟨some got, part, w'⟩ ∧
      InStep m w' rest := by
  by_cases hgot : got = []
  · subst hgot
    exact ⟨w, rfl, h⟩
  have hpos : 0 < got.length := length_pos_iff.mpr hgot
  have harea := h.area
  have hlength : w.taken.length + (got.length + rest.length) ≤ m.blockAreaLen := by
    have := congrArg length harea
    rw [blockArea, length_take, length_append, length_append] at this
    omega
  have hdata : m.data = (w.taken ++ (got ++ rest)) ++ m.data.drop m.blockAreaLen := by
    rw [← harea, blockArea, take_append_drop]
  have hbytes : (m.data.drop w.taken.length).take got.length = got := by
    rw [hdata, append_assoc, drop_left, append_assoc, take_left]
  have hpull : m.source.pull w.source got.length = (some got, w.source + got.length) := by
    show (if m.failed then _ else _) = _
    rw [hok, if_neg Bool.false_ne_true, h.position, min_eq_left (by omega), hbytes]
  have hfits : (w.taken ++ got).length ≤ m.blockAreaLen := by rw [length_append]; omega
  have hbounded : (m.source.bounded m.blockAreaLen).pull w got.length =
      (some got, ⟨w.source + got.length, w.taken ++ got, hfits⟩) := by
    show dite _ _ _ = _
    rw [dif_neg (by omega)]
    simp only [min_eq_left (show got.length ≤ m.blockAreaLen - w.taken.length by omega), hpull,
      Option.getD_some]
  have hpiece : (m.source.bounded m.blockAreaLen).piece w got.length = got := by
    rw [Source.piece, hbounded]
    rfl
  refine ⟨⟨w.source + got.length, w.taken ++ got, hfits⟩, ?_, ?_, ?_⟩
  · rw [pullExact_of_length_piece part (by rw [hpiece]) hpos, hpiece, hbounded]
  · rw [h.position, length_append]
  · rw [harea, append_assoc]

/-- The pipeline is ready, and `rest` is what is left of the area. -/
structure At (m : MemoryChunkSource) (p : ReadPipeline (Window ℕ m.blockAreaLen)) (rest : Bytes) :
    Prop where
  inStep : InStep m p.source rest
  failed : p.failed = false
  eof : p.eof = false

/-- **The next block of an area of stored blocks**: its plaintext, unless the block is not sound. -/
theorem nextBlock_cases (decode : BlockHeader → Bytes → Option Bytes) (hok : m.failed = false)
    {p : ReadPipeline (Window ℕ m.blockAreaLen)}
    {b : StoredBlock} {more : Bytes} (h : At m p (b.bytes ++ more)) (hb : b.Aligned) :
    (¬b.Sound decode ∧ ∃ p', nextBlock (m.source.bounded m.blockAreaLen) decode p = (none, p') ∧
        p'.failed = true) ∨
      (b.Sound decode ∧ ∃ plain p', decode b.header b.payload = some plain ∧
        nextBlock (m.source.bounded m.blockAreaLen) decode p = (some plain, p') ∧ At m p' more) := by
  have hsmall := hb.payload
  have hcomp := hb.compSize
  have hread : .read b.header.bytes = b.header := by
    have hfront := BlockHeader.read_bytes_append hb.uncSize (by omega) []
    rwa [append_nil] at hfront
  have hstep := h.inStep
  obtain ⟨w, hhdr, hw⟩ := pullExact_inStep hok b.header.bytes (b.payload ++ more) p.hdrPartial hstep
  obtain ⟨w', hbody, hw'⟩ := pullExact_inStep hok b.payload more false hw
  rw [BlockHeader.length_bytes] at hhdr
  rw [← hcomp] at hbody
  have hblock : nextBlock (m.source.bounded m.blockAreaLen) decode p =
      readBody (m.source.bounded m.blockAreaLen) decode ⟨w, false, p.failed, p.eof⟩ b.header := by
    rw [nextBlock, if_neg (by simp [h.failed, h.eof])]
    simp only [hhdr, hread]
  rw [hblock, readBody]
  split
  · next hlarge =>
    refine .inl ⟨fun hsound => ?_, _, rfl, rfl⟩
    have hunc := hsound.uncSize
    have hcomp := hsound.compSize
    omega
  · next hsizes =>
    rw [hbody]
    cases hdecode : decode b.header b.payload with
    | none =>
      refine .inl ⟨fun hsound => hsound.decoded hdecode, ?_⟩
      simp [hdecode]
    | some plain =>
      refine .inr ⟨⟨by omega, by omega, by simp [hdecode]⟩, plain, ⟨w', false, p.failed, p.eof⟩,
        rfl, ?_, hw', h.failed, h.eof⟩
      simp [hdecode]

/-! ### Reading the record -/

/-- Where a reader of the stored blocks is. -/
structure Progress (m : MemoryChunkSource) (decode : BlockHeader → Bytes → Option Bytes)
    (blocks : List StoredBlock) (delivered : Bytes) (b : DecompressingStreamBuf ℕ m.blockAreaLen) :
    Prop where
  failed : b.checksumFailed = true → ∃ x ∈ blocks, ¬x.Sound decode
  working : b.checksumFailed = false → ∃ front rest, ∃ plains : List Bytes, blocks = front ++ rest ∧
    (∀ x ∈ front, x.Sound decode) ∧ At m b.pipeline (rest.flatMap bytes) ∧
    front.map (fun x => decode x.header x.payload) = plains.map some ∧
    plains.flatten = delivered ++ b.plain

/-- All blocks are sound, and these are their plaintexts. -/
def Plaintexts (decode : BlockHeader → Bytes → Option Bytes) (blocks : List StoredBlock)
    (bytes : Bytes) : Prop :=
  (∀ x ∈ blocks, x.Sound decode) ∧ ∃ plains : List Bytes,
    blocks.map (fun x => decode x.header x.payload) = plains.map some ∧ plains.flatten = bytes

section Area

variable {blocks : List StoredBlock}

variable {delivered : Bytes} {b : DecompressingStreamBuf ℕ m.blockAreaLen}

theorem Progress.copy (h : Progress m decode blocks delivered b) (n : ℕ) :
    Progress m decode blocks (delivered ++ b.plain.take n) { b with plain := b.plain.drop n } where
  failed := h.failed
  working hok := by
    obtain ⟨front, rest, plains, hblocks, hsound, hat, hplains, hflat⟩ := h.working hok
    refine ⟨front, rest, plains, hblocks, hsound, hat, hplains, ?_⟩
    rw [hflat, append_assoc, take_append_drop]

theorem Progress.not_failed (h : Progress m decode blocks delivered b)
    (hsound : ∀ x ∈ blocks, x.Sound decode) : b.checksumFailed = false := by
  by_contra hfailed
  obtain ⟨x, hx, hunsound⟩ := h.failed (by simpa using hfailed)
  exact hunsound (hsound x hx)

theorem Progress.plaintexts
    (h : Progress m decode blocks delivered b) (hlength : m.blockArea.length = m.blockAreaLen)
    (hok : b.checksumFailed = false) (hplain : b.plain = [])
    (hfull : b.pipeline.source.taken.length = m.blockAreaLen) : Plaintexts decode blocks delivered := by
  obtain ⟨front, rest, plains, rfl, hsound, hat, hplains, hflat⟩ := h.working hok
  -- nothing of the area is left, and a block is never empty
  have hnil : rest = [] := by
    have hsum := congrArg length hat.inStep.area
    rw [length_append] at hsum
    cases rest with
    | nil => rfl
    | cons x rest =>
      rw [flatMap_cons, length_append, x.length_bytes] at hsum
      omega
  subst hnil
  rw [hplain, append_nil] at hflat
  rw [append_nil]
  exact ⟨hsound, plains, hplains, hflat⟩

/-- A refill of an empty buffer; if it gives nothing and nothing has failed, all is delivered. -/
theorem Progress.refill {b' : DecompressingStreamBuf ℕ m.blockAreaLen} {ok : Bool}
    (h : Progress m decode blocks delivered b) (hm : m.failed = false)
    (hlength : m.blockArea.length = m.blockAreaLen) (haligned : ∀ x ∈ blocks, x.Aligned)
    (hnonempty : ∀ x ∈ blocks, decode x.header x.payload ≠ some []) (hplain : b.plain = [])
    (hrefill : Refilled m.source decode b ok b') :
    Progress m decode blocks delivered b' ∧
      (ok = false → b'.checksumFailed = false → Plaintexts decode blocks delivered) := by
  -- inside the area there is a next block
  have hnext : b.checksumFailed = false → b.pipeline.source.taken.length < m.blockAreaLen →
      ∃ front x rest, ∃ plains : List Bytes, blocks = front ++ x :: rest ∧ (∀ y ∈ front, y.Sound decode) ∧
        At m b.pipeline (x.bytes ++ rest.flatMap bytes) ∧
        front.map (fun y => decode y.header y.payload) = plains.map some ∧
        plains.flatten = delivered := by
    intro hok hinside
    obtain ⟨front, rest, plains, hblocks, hsound, hat, hplains, hflat⟩ := h.working hok
    rw [hplain, append_nil] at hflat
    cases rest with
    | nil =>
      have hsum := congrArg length hat.inStep.area
      rw [flatMap_nil, append_nil] at hsum
      omega
    | cons x rest => exact ⟨front, x, rest, plains, hblocks, hsound, hat, hplains, hflat⟩
  cases hrefill with
  | failed before => exact ⟨h, fun _ hok => (Bool.false_ne_true (hok.symm.trans before)).elim⟩
  | used ok full => exact ⟨h, fun _ _ => h.plaintexts hlength ok hplain full⟩
  | @noBlock p ok inside block =>
    obtain ⟨front, x, rest, plains, hblocks, -, hat, -⟩ := hnext ok inside
    have hx : x ∈ blocks := by rw [hblocks]; simp
    rcases nextBlock_cases decode hm hat (haligned x hx) with
      ⟨hunsound, p', hnone, hfailed⟩ | ⟨-, plain, p', -, hsome, -⟩
    · rw [block] at hnone
      cases hnone
      have hset : (b.checksumFailed || p.failed) = true := by rw [hfailed, Bool.or_true]
      refine ⟨⟨fun _ => ⟨x, hx, hunsound⟩, fun hok => ?_⟩, fun _ hok => ?_⟩
      all_goals exact (Bool.false_ne_true (hok.symm.trans hset)).elim
    · rw [block] at hsome
      cases hsome
  | @block p plain ok inside block =>
    obtain ⟨front, x, rest, plains, hblocks, hsound, hat, hplains, hflat⟩ := hnext ok inside
    have hx : x ∈ blocks := by rw [hblocks]; simp
    rcases nextBlock_cases decode hm hat (haligned x hx) with
      ⟨-, p', hnone, -⟩ | ⟨hxsound, plain', p', hdecode, hsome, hat'⟩
    · rw [block] at hnone
      cases hnone
    rw [block] at hsome
    cases hsome
    refine ⟨⟨fun hfailed => ?_, fun _ => ?_⟩, fun hempty => ?_⟩
    · exact (Bool.false_ne_true (ok.symm.trans hfailed)).elim
    · refine ⟨front ++ [x], rest, plains ++ [plain], by simp [hblocks], ?_, hat', ?_, ?_⟩
      · exact forall_mem_append.mpr ⟨hsound, forall_mem_singleton.mpr hxsound⟩
      · rw [map_append, map_append, hplains]
        simp [hdecode]
      · rw [flatten_append, hflat]
        simp
    · have hnil : plain = [] := by simpa using hempty
      exact (hnonempty x hx (by rw [hdecode, hnil])).elim

variable (hm : m.failed = false) (harea : m.blockArea = blocks.flatMap bytes)
  (hlength : m.blockArea.length = m.blockAreaLen) (haligned : ∀ x ∈ blocks, x.Aligned)
  (hnonempty : ∀ x ∈ blocks, decode x.header x.payload ≠ some [])
include hm hlength haligned hnonempty

theorem Progress.serve (h : Progress m decode blocks delivered b) (q : Request)
    {r : Served ℕ m.blockAreaLen} (hr : serve m.source decode b q = r) :
    Progress m decode blocks (delivered ++ r.out) r.buf ∧ (r.ended = true →
      r.buf.checksumFailed = false → Plaintexts decode blocks (delivered ++ r.out)) :=
  serve_rule (I := Progress m decode blocks)
    (E := fun d c => c.checksumFailed = false → Plaintexts decode blocks d)
    (fun _ _ n hc => hc.copy n)
    (fun _ _ _ _ hc hplain hrefill => hc.refill hm hlength haligned hnonempty hplain hrefill)
    h q hr

include harea

theorem progress_serveAll (requests : List Request) :
    Progress m decode blocks (serveAll m.source decode m.stream requests).1
      (serveAll m.source decode m.stream requests).2 := by
  refine serveAll_rule (I := Progress m decode blocks) ⟨fun hfailed => ?_, fun _ => ?_⟩
    (fun _ _ h q => (h.serve hm hlength haligned hnonempty q rfl).1) requests
  · exact (Bool.false_ne_true (hm.symm.trans hfailed)).elim
  · exact ⟨[], blocks, [], rfl, nofun, ⟨⟨rfl, harea⟩, rfl, rfl⟩, rfl, rfl⟩

/-- **The record reads back as the bytes iff its blocks are sound and their plaintexts are the bytes.** -/
theorem readsBack_iff (bytes : Bytes) : m.ReadsBack decode bytes ↔ Plaintexts decode blocks bytes := by
  have hprogress := progress_serveAll hm harea hlength haligned hnonempty
  constructor
  · -- a reader that asks for more than there is sees the end
    intro h
    obtain ⟨hfailed, hdelivered, -⟩ := h [.read (bytes.length + 1)]
    obtain ⟨-, -, hall⟩ := h []
    have hone : serveAll m.source decode m.stream [.read (bytes.length + 1)] = _ :=
      serveAll_concat m.stream [] _
    have hended : (serve m.source decode
        (serveAll m.source decode m.stream []).2 (.read (bytes.length + 1))).ended = true :=
      decide_eq_true (lt_succ_of_le hdelivered.length_le)
    have hplaintexts := ((hprogress []).serve hm hlength haligned hnonempty
      (.read (bytes.length + 1)) rfl).2 hended hfailed
    rwa [hall _ hended] at hplaintexts
  · rintro ⟨hsound, plains, hplains, rfl⟩ requests
    have hinj := map_injective_iff.mpr (Option.some_injective Bytes)
    have hok := (hprogress requests).not_failed hsound
    refine ⟨hok, ?_, fun q hended => ?_⟩
    · obtain ⟨front, rest, plains', rfl, -, -, hplains', hflat⟩ := (hprogress requests).working hok
      have hfront : plains' = plains.take front.length := by
        apply hinj
        show plains'.map some = (plains.take front.length).map some
        rw [map_take, ← hplains, ← hplains', map_append, take_left' (length_map _)]
      obtain ⟨more, hmore⟩ := take_prefix front.length plains
      refine ⟨(serveAll m.source decode m.stream requests).2.plain ++ more.flatten, ?_⟩
      rw [← append_assoc, ← hflat, hfront, ← flatten_append, hmore]
    · obtain ⟨hafter, hend⟩ := (hprogress requests).serve hm hlength haligned hnonempty q rfl
      obtain ⟨-, plains', hplains', hflat⟩ := hend hended (hafter.not_failed hsound)
      have hsame : plains' = plains := hinj (hplains'.symm.trans hplains)
      rw [← hflat, hsame]

end Area

end MemoryChunkSource

end Fly.Storage
