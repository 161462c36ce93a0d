import Fly.Storage.DataService
import Fly.Storage.DataWriter
import Fly.Storage.RoundTrip

/-!
# Opening a stored object as a stream (`data_service.cpp`, `data_server.cpp`)

A local reader and a remote one both need to know where the block area of a record ends before they read
it.  The trailer that says so stands at the end of the record: the last 4096 bytes are read in advance, and
the trailer is parsed there.

* `tailTrailer` — the trailer, parsed from the last 4096 bytes;
* `readStreamingLocal` — `read_streaming` on the process that has the object: a `DiskChunkSource`;
* `chunkMeta` — the message that `serve_chunked` sends ahead, and `ChunkMeta.blockArea`, where a
  `NetworkChunkSource` takes the block area to end;
* `streamable_iff` — both know the block area **iff** the trailer fits into 4096 bytes, which depends on the
  number of blocks: each has four bytes in the table of the trailer.

A file that cannot be opened is left out.
-/

namespace Fly.Storage

open Fly.Lib List ObjectHeader Option

/-- The bytes of a file from an offset on, as many as there are. -/
def pread (file : Bytes) (n offset : ℕ) : Bytes := (file.drop offset).take n

/-- How much is read in advance. -/
def kTailBytes : ℕ := 4096

/-- The trailer of the record in the given range of a file. -/
def tailTrailer (c : Codecs) (file : Bytes) (offset size : ℕ) : Option (ObjectHeader × ℕ) :=
  let tailN := min size kTailBytes
  let tail := pread file tailN (offset + size - tailN)
  if 0 < tail.length ∧ tail.length = tailN then deserializeTrailer c tail else none

structure DiskChunkSource where
  fileName : ℕ
  offset : ℕ
  blockAreaLen : ℕ
  pyName : Bytes
  totalUncompressed : ℕ
  chunkCount : ℕ
  compressionType : CompressionType
  deriving DecidableEq

/-- `read_streaming` for an object of this process; without an answer it turns to remote replicas. -/
def readStreamingLocal {κ : Type} [DecidableEq κ] (c : Codecs) (files : ℕ → Bytes)
    (idx : LocalIdx κ IndexEntry) (k : κ) : Option DiskChunkSource :=
  (idx.findChunkedLocation k).bind fun entry =>
    (tailTrailer c (files entry.fileName) entry.offset entry.size.toNat).map fun (header, trailerLen) =>
      { fileName := entry.fileName
        offset := entry.offset
        blockAreaLen := entry.size.toNat - trailerLen
        pyName := header.pyName
        totalUncompressed := header.totalSize
        chunkCount := header.chunkCount
        compressionType := header.compressionType }

/-- The part of the `DataResponseMessage` that goes ahead of the chunks. -/
structure ChunkMeta where
  totalCompressedLen : ℕ
  pyName : Bytes := []
  trailerLen : ℕ := 0
  compressionType : CompressionType := .none

/-- `serve_chunked`: what cannot be parsed is left at its default. -/
def chunkMeta (c : Codecs) (files : ℕ → Bytes) (entry : IndexEntry) : ChunkMeta :=
  match tailTrailer c (files entry.fileName) entry.offset entry.size.toNat with
  | none => { totalCompressedLen := entry.size.toNat }
  | some (header, trailerLen) =>
    { totalCompressedLen := entry.size.toNat
      pyName := header.pyName
      trailerLen
      compressionType := header.compressionType }

/-- Where `NetworkChunkSource` takes the trailer to begin. -/
def ChunkMeta.blockArea (m : ChunkMeta) : ℕ :=
  if 0 < m.trailerLen ∧ m.trailerLen ≤ m.totalCompressedLen then m.totalCompressedLen - m.trailerLen
  else m.totalCompressedLen

/-! ### Where the trailer fits -/

/-- An accepted trailer lies in what was read in advance. -/
theorem tailTrailer_le {c : Codecs} {file : Bytes} {offset size : ℕ} {header : ObjectHeader}
    {trailerLen : ℕ} (h : tailTrailer c file offset size = some (header, trailerLen)) :
    trailerLen = header.chunkCount * 4 + header.pyName.length + 32 ∧ trailerLen ≤ kTailBytes := by
  unfold tailTrailer at h
  dsimp only at h
  split at h
  case isFalse => cases h
  case isTrue htail =>
    obtain ⟨front, body, crc, hrecord, hbody, hcrc, -, rfl⟩ := deserializeTrailer_eq_some h
    have hlength := congrArg length hrecord
    simp only [length_append] at hlength
    omega

/-- A trailer that lies in what is read in advance is found. -/
theorem tailTrailer_of_fits {c : Codecs} {header : ObjectHeader} (hfits : header.Fits)
    (front area rest : Bytes) (hshort : (header.serializeTrailer c).length ≤ kTailBytes) :
    tailTrailer c (front ++ (area ++ header.serializeTrailer c) ++ rest) front.length
      (area ++ header.serializeTrailer c).length = some (header, (header.serializeTrailer c).length) := by
  generalize htrailer : header.serializeTrailer c = trailer at hshort ⊢
  have hpos : 0 < trailer.length := by
    rw [← htrailer, serializeTrailer, length_append, length_toLE]
    omega
  have hsize : (area ++ trailer).length = area.length + trailer.length := length_append
  generalize htailN : min (area ++ trailer).length kTailBytes = tailN
  -- the tail is the trailer and the end of the block area before it
  have htail : pread (front ++ (area ++ trailer) ++ rest) tailN
      (front.length + (area ++ trailer).length - tailN) =
      area.drop (area.length + trailer.length - tailN) ++ trailer := by
    have hskip : front.length + (area ++ trailer).length - tailN =
        front.length + (area.length + trailer.length - tailN) := by omega
    have hin : area.length + trailer.length - tailN ≤ area.length := by omega
    rw [pread, hskip, append_assoc, drop_length_add_append, append_assoc,
      drop_append_of_le_length hin, ← append_assoc]
    exact take_left' (by rw [length_append, length_drop]; omega)
  have hlength : (area.drop (area.length + trailer.length - tailN) ++ trailer).length = tailN := by
    rw [length_append, length_drop]
    omega
  have hread := deserializeTrailer_append c hfits (area.drop (area.length + trailer.length - tailN))
  rw [htrailer] at hread
  unfold tailTrailer
  simp only [htailN, htail, hlength, hread]
  exact if_pos ⟨by omega, trivial⟩

/-! ### The records of a writer -/

namespace FlyStream

variable {κ : Type} [DecidableEq κ] (c : Codecs) (f : FlyStream) (calls : List WriteCall)

/-- The object is opened with exactly the block area of the record, here and on a remote process. -/
structure Streamable (files : ℕ → Bytes) (idx : LocalIdx κ IndexEntry) (k : κ) (entry : IndexEntry) :
    Prop where
  opened : ∃ d, readStreamingLocal c files idx k = some d ∧
    pread (files d.fileName) d.blockAreaLen d.offset = (f.pipeline c calls).emitted ∧
    d.blockAreaLen = (f.pipeline c calls).emitted.length ∧ d.pyName = f.pyName ∧
    d.chunkCount = (f.pipeline c calls).blocks.length
  announced : (chunkMeta c files entry).trailerLen =
    ((f.header c (f.pipeline c calls)).serializeTrailer c).length
  separated : (chunkMeta c files entry).blockArea = (f.pipeline c calls).emitted.length

variable {c f calls} {files : ℕ → Bytes} {idx : LocalIdx κ IndexEntry} {k : κ} {entry : IndexEntry}

/-- The file around the record that an entry names. -/
theorem file_eq_of_holds {record : Bytes}
    (hholds : ((files entry.fileName).drop entry.offset).take record.length = record)
    (hne : record ≠ []) :
    ∃ front rest, files entry.fileName = front ++ record ++ rest ∧ front.length = entry.offset := by
  have hlength := congrArg length hholds
  rw [length_take, length_drop] at hlength
  have hpos := length_pos_iff.mpr hne
  refine ⟨(files entry.fileName).take entry.offset,
    ((files entry.fileName).drop entry.offset).drop record.length, ?_, ?_⟩
  · have hrest := take_append_drop record.length ((files entry.fileName).drop entry.offset)
    rw [hholds] at hrest
    rw [append_assoc, hrest, take_append_drop]
  · rw [length_take]
    omega

theorem length_trailer (hname : f.pyName.length < 2 ^ 16) (hchunk : 0 < f.chunkSize)
    (hcount : (f.pipeline c calls).blocks.length < 2 ^ 30) :
    ((f.header c (f.pipeline c calls)).serializeTrailer c).length =
      (f.pipeline c calls).blocks.length * 4 + f.pyName.length + 32 := by
  have hfits := fits_header hchunk hname hcount
  have hlens : (f.header c (f.pipeline c calls)).blockCompLens.length =
      (f.pipeline c calls).blocks.length := by
    show (f.pipeline c calls).blockCompLens.length = _
    rw [(f.describes_pipeline c hchunk calls).1.lens, length_map]
  rw [serializeTrailer]
  simp only [length_append, hfits.length_table, length_fixed, length_toLE, hlens]
  show _ + (f.pyName.length + 24) + 8 = _
  omega

/-- A record that can be opened has a trailer that is read in advance as a whole. -/
theorem Streamable.trailer_le (h : f.Streamable c calls files idx k entry) :
    (f.pipeline c calls).blocks.length * 4 + f.pyName.length + 32 ≤ kTailBytes := by
  obtain ⟨d, hopen, -, -, hname, hcount⟩ := h.opened
  obtain ⟨e, -, hopen⟩ := bind_eq_some_iff.mp hopen
  obtain ⟨⟨header, trailerLen⟩, htail, rfl⟩ := map_eq_some_iff.mp hopen
  obtain ⟨hlength, hle⟩ := tailTrailer_le htail
  replace hname : header.pyName = f.pyName := hname
  replace hcount : header.chunkCount = (f.pipeline c calls).blocks.length := hcount
  rw [hname, hcount] at hlength
  omega

/-- A record whose trailer is read in advance as a whole can be opened. -/
theorem streamable_of_trailer_le (hchunk : 0 < f.chunkSize)
    (hentry : idx.findChunkedLocation k = some entry)
    (hsize : entry.size = (f.finishWrite c calls).length)
    (hholds : ((files entry.fileName).drop entry.offset).take (f.finishWrite c calls).length =
      f.finishWrite c calls)
    (hle : (f.pipeline c calls).blocks.length * 4 + f.pyName.length + 32 ≤ kTailBytes) :
    f.Streamable c calls files idx k entry := by
  have hname : f.pyName.length < 2 ^ 16 := by
    rw [kTailBytes] at hle
    omega
  have hcount : (f.pipeline c calls).blocks.length < 2 ^ 30 := by
    rw [kTailBytes] at hle
    omega
  have hfits := fits_header hchunk hname hcount
  have hlength := length_trailer hname hchunk hcount
  set p := f.pipeline c calls
  set header := f.header c p
  have hrecord : f.finishWrite c calls = p.emitted ++ header.serializeTrailer c := rfl
  have hne : f.finishWrite c calls ≠ [] := by
    rw [hrecord, ← length_pos_iff, length_append]
    omega
  obtain ⟨front, rest, hfile, hoffset⟩ := file_eq_of_holds hholds hne
  have htail := tailTrailer_of_fits hfits front p.emitted rest (by rw [hlength]; exact hle)
  rw [← hrecord, ← hfile, hoffset] at htail
  have hnat : entry.size.toNat = (f.finishWrite c calls).length := by rw [hsize, Int.toNat_natCast]
  have harea : (f.finishWrite c calls).length - (header.serializeTrailer c).length =
      p.emitted.length := by
    rw [hrecord, length_append, Nat.add_sub_cancel]
  have hmeta : chunkMeta c files entry =
      { totalCompressedLen := (f.finishWrite c calls).length
        pyName := f.pyName
        trailerLen := (header.serializeTrailer c).length
        compressionType := header.compressionType } := by
    rw [chunkMeta, hnat, htail]
    rfl
  refine ⟨⟨{
    fileName := entry.fileName
    offset := entry.offset
    blockAreaLen := p.emitted.length
    pyName := f.pyName
    totalUncompressed := header.totalSize
    chunkCount := header.chunkCount
    compressionType := header.compressionType }, ?_, ?_, rfl, rfl, ?_⟩, ?_, ?_⟩
  · simp only [readStreamingLocal, hentry, bind_some, hnat, htail, map_some, harea]
    rfl
  · show ((files entry.fileName).drop entry.offset).take _ = _
    rw [hfile, ← hoffset, append_assoc, drop_left, hrecord, append_assoc, take_left]
  · show p.chunkCount = _
    rw [(f.describes_pipeline c hchunk calls).1.count]
    exact Nat.mod_eq_of_lt (hcount.trans (by decide))
  · rw [hmeta]
  · rw [hmeta, ChunkMeta.blockArea]
    dsimp only
    rw [if_pos ⟨by omega, by rw [hrecord, length_append]; omega⟩, harea]

/-- **A stored object can be opened as a stream exactly when its trailer fits into what is read in
advance**: four bytes for each block, the name, and 32 bytes. -/
theorem streamable_iff (hchunk : 0 < f.chunkSize) (hentry : idx.findChunkedLocation k = some entry)
    (hsize : entry.size = (f.finishWrite c calls).length)
    (hholds : ((files entry.fileName).drop entry.offset).take (f.finishWrite c calls).length =
      f.finishWrite c calls) :
    f.Streamable c calls files idx k entry ↔
      (f.pipeline c calls).blocks.length * 4 + f.pyName.length + 32 ≤ 4096 :=
  ⟨Streamable.trailer_le, streamable_of_trailer_le hchunk hentry hsize hholds⟩

/-- An index with one object, which is the whole of data file `1`. -/
def wholeFileIdx (size : ℕ) : LocalIdx ℕ IndexEntry :=
  (∅ : LocalIdx ℕ IndexEntry).insert 0 {
    entries := [wholeFile size]
    completionState := .complete }
where
  wholeFile (size : ℕ) : IndexEntry :=
    { objectName := "streamed", fileName := 1, offset := 0, size, blockCount := 1, host := "here",
      writeContextHash := "" }

theorem findChunkedLocation_wholeFileIdx (size : ℕ) :
    (wholeFileIdx size).findChunkedLocation 0 = some (wholeFileIdx.wholeFile size) := by
  rfl

/-- Ten bytes in chunks of eight. -/
theorem streamable_iff_tenBytes : Streamable plainCodecs ⟨8, .none, 0, [78]⟩ [.write (replicate 10 5)]
      (fun _ => finishWrite plainCodecs ⟨8, .none, 0, [78]⟩ [.write (replicate 10 5)])
      (wholeFileIdx 83) 0 (wholeFileIdx.wholeFile 83) :=
  (streamable_iff (by decide) (findChunkedLocation_wholeFileIdx 83) (by decide) (by decide)).mpr (by decide)

/-- A byte and a flush, again and again. -/
def flushedBytes (n : ℕ) : List WriteCall := (replicate n [.write [9], .flush]).flatten

/-- Each flush makes a block. -/
theorem foldl_flushedBytes (n : ℕ) :
    ((flushedBytes n).foldl (call plainCodecs ⟨8, .none, 0, []⟩) {}).buf = [] ∧
      ((flushedBytes n).foldl (call plainCodecs ⟨8, .none, 0, []⟩) {}).blocks.length = n := by
  induction n with
  | zero => exact ⟨rfl, rfl⟩
  | succ n ih =>
    have hsplit : flushedBytes (n + 1) = flushedBytes n ++ [.write [9], .flush] := by
      rw [flushedBytes, replicate_succ', flatten_append]
      rfl
    rw [hsplit, foldl_append]
    generalize (flushedBytes n).foldl (call plainCodecs ⟨8, .none, 0, []⟩) {} = p at ih ⊢
    obtain ⟨buf, emitted, total, count, raw, lens, blocks⟩ := p
    obtain ⟨hbuf, hblocks⟩ := ih
    subst hbuf
    refine ⟨rfl, ?_⟩
    show (blocks ++ [([9], true)]).length = n + 1
    rw [length_append, hblocks]
    rfl

/-- The table of 1017 blocks does not fit into what is read in advance. -/
theorem not_streamable_manyBlocks :
    let record := finishWrite plainCodecs ⟨8, .none, 0, []⟩ (flushedBytes 1017)
    ∃ entry : IndexEntry, (wholeFileIdx record.length).findChunkedLocation 0 = some entry ∧
      entry.size = record.length ∧ (record.drop entry.offset).take record.length = record ∧
      ¬Streamable plainCodecs ⟨8, .none, 0, []⟩ (flushedBytes 1017) (fun _ => record)
        (wholeFileIdx record.length) 0 entry := by
  intro record
  refine ⟨_, findChunkedLocation_wholeFileIdx record.length, rfl, take_length, fun h => ?_⟩
  have hle := h.trailer_le
  have hpipeline : (pipeline plainCodecs ⟨8, .none, 0, []⟩ (flushedBytes 1017)).blocks.length = 1017 := by
    rw [pipeline, WritePipeline.finish, if_pos (foldl_flushedBytes 1017).1]
    exact (foldl_flushedBytes 1017).2
  rw [hpipeline] at hle
  exact absurd hle (by decide)

end FlyStream

end Fly.Storage
