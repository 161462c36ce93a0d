import Mathlib.Data.List.Induction
import Fly.Storage.Pipeline

/-!
# Writing a record

An object is stored as a record: its blocks, then a trailer with the sizes of the blocks, the name of its
type and what a reader needs to know before it starts.

* `storeBlock` — the stages of the writing side: compression, unless it does not pay, then the checksum;
* `WritePipeline` — cutting the data into blocks; `blocks` remembers the plaintext of the blocks for the
  statements, the rest is what the code keeps;
* `ObjectHeader`, `serializeTrailer`, `deserializeTrailer` — the trailer;
* `FlyStream` — the calls of a writer, and the record it gets;
* `describes_pipeline` — after any calls, the blocks are the data in order, and what was emitted and counted
  is theirs; `deserializeTrailer_append` — a trailer is read back from behind anything.
-/

namespace Fly.Storage

open Fly.Lib List

/-! ### Blocks -/

structure StoredBlock where
  header : BlockHeader
  payload : Bytes
  raw : Bool

def StoredBlock.bytes (b : StoredBlock) : Bytes := b.header.bytes ++ b.payload

theorem StoredBlock.length_bytes (b : StoredBlock) : b.bytes.length = 16 + b.payload.length := by
  rw [bytes, length_append, BlockHeader.length_bytes]

/-- `CompressStage`: what is stored of the plaintext, and whether it is the plaintext itself.  `tail` marks
a block that was cut by a flush. -/
def compressStage (compressor : Option Compressor) (rawThreshold : ℤ) (tail : Bool) (plain : Bytes) :
    Bytes × Bool :=
  let uncSize : ℕ := plain.length % 2 ^ 32
  match compressor with
  | none => (plain, true)
  | some k =>
    if tail ∧ 0 ≤ rawThreshold ∧ (uncSize : ℤ) ≤ rawThreshold then (plain, true)
    -- the output is kept if it is smaller than 85 % of the input, be it empty
    else if (k.compress plain).length * 100 < uncSize * 85 then (k.compress plain, false)
    else (plain, true)

/-- All stages; sizes are stored in 32 bits. -/
def storeBlock (c : Codecs) (compressor : Option Compressor) (rawThreshold : ℤ) (tail : Bool)
    (plain : Bytes) : StoredBlock :=
  let out := compressStage compressor rawThreshold tail plain
  { header :=
      { uncSize := plain.length % 2 ^ 32
        compSize := out.1.length % 2 ^ 32
        crc := c.dataChecksum out.1 }
    payload := out.1
    raw := out.2 }

/-! ### The pipeline -/

structure WritePipeline where
  buf : Bytes := []
  emitted : Bytes := []
  totalUncompressed : ℕ := 0
  chunkCount : ℕ := 0
  rawBlocks : ℕ := 0
  blockCompLens : List ℕ := []
  /-- the plaintexts of the blocks, and whether they were cut by a flush -/
  blocks : List (Bytes × Bool) := []

open WritePipeline

namespace WritePipeline

variable (c : Codecs) (compressor : Option Compressor) (rawThreshold : ℤ) (chunkSize : ℕ)

/-- The counters are of 64 and 32 bits. -/
def flushBlock (tail : Bool) (p : WritePipeline) : WritePipeline :=
  let block := storeBlock c compressor rawThreshold tail p.buf
  { buf := []
    emitted := p.emitted ++ block.bytes
    totalUncompressed := (p.totalUncompressed + p.buf.length) % 2 ^ 64
    chunkCount := (p.chunkCount + 1) % 2 ^ 32
    rawBlocks := if block.raw then (p.rawBlocks + 1) % 2 ^ 32 else p.rawBlocks
    blockCompLens := p.blockCompLens ++ [block.header.compSize]
    blocks := p.blocks ++ [(p.buf, tail)] }

def flushFull (p : WritePipeline) : WritePipeline :=
  if p.buf.length = chunkSize then p.flushBlock c compressor rawThreshold false else p

def writeFuel : ℕ → Bytes → WritePipeline → WritePipeline
  | 0, _, p => p
  | fuel + 1, data, p =>
    if data = [] then p
    else
      let p := p.flushFull c compressor rawThreshold chunkSize
      let take := min (chunkSize - p.buf.length) data.length
      let p := { p with buf := p.buf ++ data.take take }
      writeFuel fuel (data.drop take) (p.flushFull c compressor rawThreshold chunkSize)

/-- Every round takes at least one byte. -/
def write (data : Bytes) (p : WritePipeline) : WritePipeline :=
  writeFuel c compressor rawThreshold chunkSize data.length data p

def finish (p : WritePipeline) : WritePipeline :=
  if p.buf = [] then p else p.flushBlock c compressor rawThreshold true

def allRaw (p : WritePipeline) : Bool := 0 < p.chunkCount ∧ p.rawBlocks = p.chunkCount

def stored (b : Bytes × Bool) : StoredBlock := storeBlock c compressor rawThreshold b.2 b.1

/-- The pipeline after `data` was written: its blocks and its buffer are the data in order, and what was
emitted and counted is theirs. -/
structure Describes (p : WritePipeline) (data : Bytes) : Prop where
  data : (p.blocks.map Prod.fst).flatten ++ p.buf = data
  emitted : p.emitted = (p.blocks.map fun b => (stored c compressor rawThreshold b).bytes).flatten
  total : p.totalUncompressed = (p.blocks.map Prod.fst).flatten.length % 2 ^ 64
  count : p.chunkCount = p.blocks.length % 2 ^ 32
  raw : p.rawBlocks = (p.blocks.countP fun b => (stored c compressor rawThreshold b).raw) % 2 ^ 32
  lens : p.blockCompLens = p.blocks.map fun b => (stored c compressor rawThreshold b).header.compSize
  nonempty : ∀ b ∈ p.blocks, b.1 ≠ []

/-- The buffer is not full, and no block is larger than the chunk size. -/
def Sized (chunkSize : ℕ) (p : WritePipeline) : Prop :=
  p.buf.length < chunkSize ∧ ∀ b ∈ p.blocks, b.1.length ≤ chunkSize

variable {c compressor rawThreshold chunkSize} {p : WritePipeline} {data : Bytes}

section

variable (h : Describes c compressor rawThreshold p data)

include h

theorem Describes.flushBlock (hbuf : p.buf ≠ []) (tail : Bool) :
    Describes c compressor rawThreshold (p.flushBlock c compressor rawThreshold tail) data where
  data := by
    show ((p.blocks ++ [(p.buf, tail)]).map Prod.fst).flatten ++ [] = data
    rw [← h.data]
    simp
  emitted := by
    show p.emitted ++ (stored c compressor rawThreshold (p.buf, tail)).bytes = _
    rw [h.emitted]
    show _ = ((p.blocks ++ [(p.buf, tail)]).map _).flatten
    simp
  total := by
    show (p.totalUncompressed + p.buf.length) % 2 ^ 64 = _
    rw [h.total, Nat.mod_add_mod]
    show _ = ((p.blocks ++ [(p.buf, tail)]).map Prod.fst).flatten.length % 2 ^ 64
    simp
  count := by
    show (p.chunkCount + 1) % 2 ^ 32 = (p.blocks ++ [(p.buf, tail)]).length % 2 ^ 32
    rw [h.count, Nat.mod_add_mod, length_append]
    rfl
  raw := by
    show (if (stored c compressor rawThreshold (p.buf, tail)).raw then (p.rawBlocks + 1) % 2 ^ 32
      else p.rawBlocks) = ((p.blocks ++ [(p.buf, tail)]).countP _) % 2 ^ 32
    rw [countP_append, countP_singleton, h.raw]
    split
    · rw [Nat.mod_add_mod]
    · rfl
  lens := by
    show p.blockCompLens ++ [(stored c compressor rawThreshold (p.buf, tail)).header.compSize] = _
    rw [h.lens]
    show _ = (p.blocks ++ [(p.buf, tail)]).map _
    simp
  nonempty := by
    exact forall_mem_append.mpr ⟨h.nonempty, forall_mem_singleton.mpr hbuf⟩

theorem Describes.flushFull (hchunk : 0 < chunkSize) (hbuf : p.buf.length ≤ chunkSize)
    (hblocks : ∀ b ∈ p.blocks, b.1.length ≤ chunkSize) :
    Describes c compressor rawThreshold (p.flushFull c compressor rawThreshold chunkSize) data ∧
      (p.flushFull c compressor rawThreshold chunkSize).Sized chunkSize := by
  unfold WritePipeline.flushFull
  split
  · next hfull =>
    refine ⟨h.flushBlock (fun hnil => ?_) false, hchunk, ?_⟩
    · rw [hnil] at hfull
      exact absurd hfull (Nat.ne_of_lt hchunk)
    · exact forall_mem_append.mpr ⟨hblocks, forall_mem_singleton.mpr hbuf⟩
  · exact ⟨h, by omega, hblocks⟩

theorem Describes.append (more : Bytes) :
    Describes c compressor rawThreshold { p with buf := p.buf ++ more } (data ++ more) :=
  ⟨by rw [← h.data, append_assoc], h.emitted, h.total, h.count, h.raw, h.lens, h.nonempty⟩

end

theorem Describes.writeFuel (hchunk : 0 < chunkSize) {fuel : ℕ} (more : Bytes)
    (h : Describes c compressor rawThreshold p data) (hsized : p.Sized chunkSize)
    (hfuel : more.length ≤ fuel) :
    Describes c compressor rawThreshold
        (writeFuel c compressor rawThreshold chunkSize fuel more p) (data ++ more) ∧
      (writeFuel c compressor rawThreshold chunkSize fuel more p).Sized chunkSize := by
  induction fuel generalizing more p data with
  | zero =>
    rw [length_eq_zero_iff.mp (Nat.le_zero.mp hfuel), append_nil]
    exact ⟨h, hsized⟩
  | succ fuel ih =>
    unfold writeFuel
    split
    · next hnil =>
      rw [hnil, append_nil]
      exact ⟨h, hsized⟩
    · next hne =>
      obtain ⟨hfirst, hshort, hblocks⟩ := h.flushFull hchunk hsized.1.le hsized.2
      generalize p.flushFull c compressor rawThreshold chunkSize = q at hfirst hshort hblocks ⊢
      dsimp only
      -- the bytes that fit into the block, and the rest
      generalize htake : min (chunkSize - q.buf.length) more.length = take
      obtain ⟨hsecond, hsized'⟩ := (hfirst.append (more.take take)).flushFull hchunk (by
        rw [length_append, length_take]
        omega) hblocks
      have hrest := ih (more.drop take) hsecond hsized' (by rw [length_drop]; omega)
      rw [append_assoc, take_append_drop] at hrest
      exact hrest

theorem Describes.finish (h : Describes c compressor rawThreshold p data) (hsized : p.Sized chunkSize) :
    Describes c compressor rawThreshold (p.finish c compressor rawThreshold) data ∧
      (p.finish c compressor rawThreshold).buf = [] ∧
      ∀ b ∈ (p.finish c compressor rawThreshold).blocks, b.1.length ≤ chunkSize := by
  unfold WritePipeline.finish
  split
  · next hnil => exact ⟨h, hnil, hsized.2⟩
  · next hne =>
    refine ⟨h.flushBlock hne true, rfl, ?_⟩
    exact forall_mem_append.mpr ⟨hsized.2, forall_mem_singleton.mpr hsized.1.le⟩

end WritePipeline

/-! ### The trailer -/

structure ObjectHeader where
  pyName : Bytes
  totalSize : ℕ
  chunkCount : ℕ
  compressionType : CompressionType
  blockCompLens : List ℕ
  deriving DecidableEq, Repr

def CompressionType.code : CompressionType → ℕ
  | .none => 0
  | .lz4 => 1
  | .zlib => 2
  | .zstd => 3

def CompressionType.ofCode (code : ℕ) : Option CompressionType :=
  [CompressionType.none, .lz4, .zlib, .zstd].find? fun type => type.code = code

theorem CompressionType.ofCode_code (type : CompressionType) : ofCode type.code = some type := by
  cases type <;> rfl

namespace ObjectHeader

def objectMagic : ℕ := 0x464C5900

def objectVersion : ℕ := 1

/-- The block table, as many bytes of it as its length field says. -/
def table (h : ObjectHeader) : Bytes :=
  (pack (h.blockCompLens.map fun len => (4, len))).take (h.blockCompLens.length * 4 % 2 ^ 32)

/-- The fields of fixed width. -/
def fixed (h : ObjectHeader) : Bytes :=
  pack [(4, objectMagic), (1, objectVersion), (2, h.pyName.length),
    (4, h.blockCompLens.length * 4 % 2 ^ 32), (8, h.totalSize), (4, h.chunkCount),
    (1, h.compressionType.code)]

def serializeTrailer (c : Codecs) (h : ObjectHeader) : Bytes :=
  let body := h.table ++ (h.pyName ++ h.fixed)
  body ++ toLE 8 (c.dataChecksum body).toNat

/-- The header at the end of a record, and the length of the trailer. -/
def deserializeTrailer (c : Codecs) (record : Bytes) : Option (ObjectHeader × ℕ) :=
  if record.length < 24 + 8 then none
  else
    let covered := record.take (record.length - 8)
    let storedCrc := ofLE (record.drop (record.length - 8))
    match unpack [4, 1, 2, 4, 8, 4, 1] (covered.drop (covered.length - 24)) with
    | [magic, version, nameLen, tableLen, totalSize, chunkCount, compRaw] =>
      if magic ≠ objectMagic ∨ objectVersion < version then none
      else
        match CompressionType.ofCode compRaw with
        | none => none
        | some compressionType =>
          if tableLen ≠ chunkCount * 4 then none
          else
            let bodyLen := tableLen + nameLen + 24
            if record.length < bodyLen + 8 then none
            else
              let body := covered.drop (covered.length - bodyLen)
              if (c.dataChecksum body).toNat ≠ storedCrc then none
              else
                some ({
                  pyName := (body.drop tableLen).take nameLen
                  totalSize
                  chunkCount
                  compressionType
                  blockCompLens := unpack (List.replicate chunkCount 4) body }, bodyLen + 8)
    | _ => none

/-- The header fits its fields: the name has a length of 16 bits, the table of 32 bits, and there is one
table entry, of 32 bits, for each block. -/
structure Fits (h : ObjectHeader) : Prop where
  name : h.pyName.length < 2 ^ 16
  table : h.blockCompLens.length < 2 ^ 30
  count : h.chunkCount = h.blockCompLens.length
  total : h.totalSize < 2 ^ 64
  lens : ∀ len ∈ h.blockCompLens, len < 2 ^ 32

theorem length_fixed (h : ObjectHeader) : h.fixed.length = 24 := by
  rfl

theorem length_pack_table (lens : List ℕ) :
    (pack (lens.map fun len => (4, len))).length = lens.length * 4 := by
  rw [length_pack, map_map]
  simp [Function.comp_def, map_const']

namespace Fits

variable {h : ObjectHeader} (hfits : h.Fits)

include hfits

theorem tableLen : h.blockCompLens.length * 4 % 2 ^ 32 = h.blockCompLens.length * 4 :=
  Nat.mod_eq_of_lt (by have := hfits.table; omega)

theorem table_eq : h.table = pack (h.blockCompLens.map fun len => (4, len)) := by
  rw [ObjectHeader.table, hfits.tableLen]
  exact take_of_length_le (length_pack_table _).le

theorem length_table : h.table.length = h.blockCompLens.length * 4 := by
  rw [hfits.table_eq, length_pack_table]

theorem unpack_fixed : unpack [4, 1, 2, 4, 8, 4, 1] h.fixed = [objectMagic, objectVersion, h.pyName.length,
      h.blockCompLens.length * 4 % 2 ^ 32, h.totalSize, h.chunkCount, h.compressionType.code] := by
  have hname := hfits.name
  have htable := hfits.table
  have hcount := hfits.count
  have htotal := hfits.total
  have hcode : h.compressionType.code < 256 := by cases h.compressionType <;> decide
  have hread := unpack_pack [(4, objectMagic), (1, objectVersion), (2, h.pyName.length),
    (4, h.blockCompLens.length * 4 % 2 ^ 32), (8, h.totalSize), (4, h.chunkCount),
    (1, h.compressionType.code)] (by
      intro f hf
      simp only [mem_cons, not_mem_nil, or_false] at hf
      rcases hf with rfl | rfl | rfl | rfl | rfl | rfl | rfl <;>
        norm_num [objectMagic, objectVersion] <;> omega) []
  exact hread

theorem unpack_table (rest : Bytes) :
    unpack (List.replicate h.chunkCount 4) (h.table ++ rest) = h.blockCompLens := by
  have hread := unpack_pack (h.blockCompLens.map fun len => (4, len)) (by
    intro f hf
    obtain ⟨len, hlen, rfl⟩ := mem_map.mp hf
    have := hfits.lens len hlen
    norm_num
    omega) rest
  rw [hfits.table_eq, hfits.count]
  simpa [Function.comp_def, map_const'] using hread

end Fits

/-- **A trailer that is accepted** ends with the checksum of the rest of it, and its length follows from
the number of blocks and the name. -/
theorem deserializeTrailer_eq_some {c : Codecs} {record : Bytes} {header : ObjectHeader}
    {trailerLen : ℕ} (h : deserializeTrailer c record = some (header, trailerLen)) :
    ∃ front body crc, record = front ++ (body ++ crc) ∧
      body.length = header.chunkCount * 4 + header.pyName.length + 24 ∧ crc.length = 8 ∧
      (c.dataChecksum body).toNat = ofLE crc ∧ trailerLen = body.length + 8 := by
  unfold deserializeTrailer at h
  split at h
  · cases h
  next hlong =>
  dsimp only at h
  split at h
  case h_2 => cases h
  case h_1 magic version nameLen tableLen totalSize chunkCount compRaw hfields =>
    split at h
    · cases h
    split at h
    · cases h
    split at h
    · cases h
    next htable =>
    split at h
    · cases h
    next hbody =>
    split at h
    · cases h
    next hcrc =>
    cases h
    generalize hcovered : record.take (record.length - 8) = covered at hcrc ⊢
    have hlength : covered.length = record.length - 8 := by
      rw [← hcovered, length_take]
      omega
    generalize hdrop : covered.drop (covered.length - (tableLen + nameLen + 24)) = body at hcrc ⊢
    have hsize : body.length = tableLen + nameLen + 24 := by
      rw [← hdrop, length_drop]
      omega
    have hname : ((body.drop tableLen).take nameLen).length = nameLen := by
      rw [length_take, length_drop, hsize]
      omega
    refine ⟨covered.take (covered.length - (tableLen + nameLen + 24)), body,
      record.drop (record.length - 8), ?_, ?_, ?_, not_not.mp hcrc, ?_⟩
    · rw [← append_assoc, ← hdrop, take_append_drop, ← hcovered, take_append_drop]
    · show _ = chunkCount * 4 + ((body.drop tableLen).take nameLen).length + 24
      omega
    · rw [length_drop]
      omega
    · rw [hsize]

/-- **A trailer is read back**, from behind anything. -/
theorem deserializeTrailer_append (c : Codecs) {h : ObjectHeader} (hfits : h.Fits) (area : Bytes) :
    deserializeTrailer c (area ++ h.serializeTrailer c) = some (h, (h.serializeTrailer c).length) := by
  have hfixed := h.length_fixed
  have htable := hfits.length_table
  generalize hbody : h.table ++ (h.pyName ++ h.fixed) = body
  have hlength : body.length = h.blockCompLens.length * 4 + h.pyName.length + 24 := by
    rw [← hbody, length_append, length_append, htable, hfixed]
    omega
  have htrailer : h.serializeTrailer c = body ++ toLE 8 (c.dataChecksum body).toNat := by
    rw [serializeTrailer, hbody]
  have hchecksum : ofLE (toLE 8 (c.dataChecksum body).toNat) = (c.dataChecksum body).toNat :=
    ofLE_toLE_of_lt (by have := (c.dataChecksum body).toNat_lt; norm_num; omega)
  rw [htrailer, ← append_assoc]
  generalize hcrc : toLE 8 (c.dataChecksum body).toNat = crc at hchecksum ⊢
  have hcrcLen : crc.length = 8 := by rw [← hcrc, length_toLE]
  have hsize : (area ++ body ++ crc).length - 8 = (area ++ body).length := by
    rw [length_append, hcrcLen, Nat.add_sub_cancel]
  have hfields : (area ++ body).drop ((area ++ body).length - 24) = h.fixed := by
    have hsplit : area ++ body = (area ++ (h.table ++ h.pyName)) ++ h.fixed := by
      rw [← hbody]
      simp
    rw [hsplit]
    exact drop_left' (by simp only [length_append, hfixed]; omega)
  have hwhole : (area ++ body).drop ((area ++ body).length -
      (h.blockCompLens.length * 4 + h.pyName.length + 24)) = body :=
    drop_left' (by rw [length_append]; omega)
  have hpyName : (body.drop (h.blockCompLens.length * 4)).take h.pyName.length = h.pyName := by
    rw [← hbody, drop_left' htable, take_left]
  have hlens := hfits.unpack_table (h.pyName ++ h.fixed)
  rw [hbody] at hlens
  unfold deserializeTrailer
  rw [if_neg (by simp only [length_append]; omega)]
  simp only [hsize, take_left, drop_left, hchecksum, hfields, hfits.unpack_fixed, hfits.tableLen,
    CompressionType.ofCode_code]
  rw [if_neg (by simp), if_neg (by rw [hfits.count]; simp), if_neg (by simp only [length_append]; omega),
    hwhole, if_neg (by simp), hpyName, hlens, length_append, hcrcLen, hlength]

end ObjectHeader

/-! ### The stream a writer sees -/

inductive WriteCall where
  | write (data : Bytes)
  | flush

structure FlyStream where
  chunkSize : ℕ
  compressionType : CompressionType
  compressionThreshold : ℤ
  pyName : Bytes

namespace FlyStream

variable (c : Codecs) (f : FlyStream) (p : WritePipeline) (calls : List WriteCall)

def call : WriteCall → WritePipeline
  | .write data => p.write c (c.compressor f.compressionType) f.compressionThreshold f.chunkSize data
  | .flush => p.finish c (c.compressor f.compressionType) f.compressionThreshold

/-- The pipeline at the end: `finish_write` flushes before it writes the trailer. -/
def pipeline : WritePipeline :=
  (calls.foldl (f.call c) {}).finish c (c.compressor f.compressionType) f.compressionThreshold

/-- `NONE` when every block is stored raw. -/
def effectiveCompressionType : CompressionType :=
  if p.allRaw then .none
  else
    match c.compressor f.compressionType with
    | some k => k.type
    | none => .none

def header : ObjectHeader where
  pyName := f.pyName
  totalSize := p.totalUncompressed
  chunkCount := p.chunkCount
  compressionType := f.effectiveCompressionType c p
  blockCompLens := p.blockCompLens

def finishWrite : Bytes :=
  (f.pipeline c calls).emitted ++ (f.header c (f.pipeline c calls)).serializeTrailer c

def writtenBytes : Bytes :=
  calls.flatMap fun
    | .write data => data
    | .flush => []

/-- **After any calls**: the blocks are the bytes in order, none of them empty, and what was emitted and
counted is theirs. -/
theorem describes_pipeline (hchunk : 0 < f.chunkSize) (calls : List WriteCall) :
    WritePipeline.Describes c (c.compressor f.compressionType) f.compressionThreshold
        (f.pipeline c calls) (writtenBytes calls) ∧ (f.pipeline c calls).buf = [] := by
  suffices hcalls : WritePipeline.Describes c (c.compressor f.compressionType) f.compressionThreshold
      (calls.foldl (f.call c) {}) (writtenBytes calls) ∧ (calls.foldl (f.call c) {}).Sized f.chunkSize by
    obtain ⟨hfinish, hbuf, -⟩ := hcalls.1.finish hcalls.2
    exact ⟨hfinish, hbuf⟩
  induction calls using reverseRecOn with
  | nil => exact ⟨⟨rfl, rfl, rfl, rfl, rfl, rfl, nofun⟩, hchunk, nofun⟩
  | append_singleton calls call ih =>
    have hwritten : writtenBytes (calls ++ [call]) = writtenBytes calls ++ writtenBytes [call] :=
      flatMap_append
    rw [foldl_append, hwritten]
    cases call with
    | write data =>
      rw [show writtenBytes [.write data] = data from append_nil data]
      exact ih.1.writeFuel hchunk data ih.2 le_rfl
    | flush =>
      rw [show writtenBytes [.flush] = [] from rfl, append_nil]
      obtain ⟨hfinish, hbuf, hblocks⟩ := ih.1.finish ih.2
      refine ⟨hfinish, ?_, hblocks⟩
      show ((calls.foldl (f.call c) {}).finish c _ _).buf.length < f.chunkSize
      rw [hbuf]
      exact hchunk

end FlyStream

end Fly.Storage
