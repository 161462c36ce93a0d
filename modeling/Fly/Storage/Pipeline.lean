import Fly.Lib.Pull

/-!
# Blocks of an object's data

The data of an object is cut into blocks.  A block is a header of sixteen bytes — the length of the
plaintext, the length of what is stored, a checksum of what is stored — and the stored bytes, compressed
or not: equal lengths mean that they are the plaintext itself.

* `CompressionType`, `Compressor`, `Codecs` — the compressors and the checksum, as the code sees them;
* `BlockHeader` — the header and its layout;
* `decodeBlock` — the stages of the reading side: checksum, then decompression;
* `ReadPipeline`, `nextBlock` — pulling blocks from a source, with its distinction of end and failure;
* `Decoded` — bytes that are a sequence of whole blocks, with their plaintexts;
* `nextBlock_spec` — a block it returns is the next one of the source; if it returns none it has failed,
  or it reports an end, and that only when nothing came where a header was due.
-/

namespace Fly.Storage

open Fly.Lib List

/-! ### Compressors -/

inductive CompressionType where
  | none
  | lz4
  | zlib
  | zstd
  deriving DecidableEq, Repr

structure Compressor where
  type : CompressionType
  /-- the data of the answer, whose size is noted beside it; a failed compression answers with none -/
  compress : Bytes → Bytes
  /-- the bytes written to a buffer of the given size; none on an error -/
  decompressTo : Bytes → ℕ → Option Bytes

/-- What the code takes from outside: the checksum, and the compressor of each type. -/
structure Codecs where
  dataChecksum : Bytes → UInt64
  create : CompressionType → Compressor
  type_create : ∀ type, (create type).type = type

/-- The compressor to use for a type; there is none for `NONE`. -/
def Codecs.compressor (c : Codecs) : CompressionType → Option Compressor
  | .none => none
  | type => some (c.create type)

/-- A checksum that is always `0`, and compressors that change nothing. -/
def plainCodecs : Codecs where
  dataChecksum _ := 0
  create type := ⟨type, id, fun data _ => some data⟩
  type_create _ := rfl

/-! ### Block headers -/

structure BlockHeader where
  uncSize : ℕ
  compSize : ℕ
  crc : UInt64
  deriving DecidableEq, Repr

namespace BlockHeader

def bytes (h : BlockHeader) : Bytes := pack [(4, h.uncSize), (4, h.compSize), (8, h.crc.toNat)]

def read (data : Bytes) : BlockHeader :=
  match unpack [4, 4, 8] data with
  | [uncSize, compSize, crc] => ⟨uncSize, compSize, UInt64.ofNat crc⟩
  | _ => ⟨0, 0, 0⟩

theorem length_bytes (h : BlockHeader) : h.bytes.length = 16 := by
  rfl

/-- A header is read back, in front of anything, if its sizes fit. -/
theorem read_bytes_append {h : BlockHeader} (hunc : h.uncSize < 2 ^ 32) (hcomp : h.compSize < 2 ^ 32)
    (rest : Bytes) : read (h.bytes ++ rest) = h := by
  have hfields : unpack [4, 4, 8] (h.bytes ++ rest) = [h.uncSize, h.compSize, h.crc.toNat] := by
    refine unpack_pack [(4, h.uncSize), (4, h.compSize), (8, h.crc.toNat)] ?_ rest
    intro f hf
    have hcrc := h.crc.toNat_lt
    simp only [mem_cons, not_mem_nil, or_false] at hf
    rcases hf with rfl | rfl | rfl <;> norm_num <;> omega
  rw [read, hfields]
  simp

theorem sizes_read_lt (data : Bytes) : (read data).uncSize < 2 ^ 32 ∧ (read data).compSize < 2 ^ 32 :=
  ⟨ofLE_take_lt data 4, ofLE_take_lt (data.drop 4) 4⟩

variable {data : Bytes}

/-- A header is made of the bytes it was read from. -/
theorem bytes_read (h : 16 ≤ data.length) : (read data).bytes = data.take 16 := by
  have hcrc : ofLE (((data.drop 4).drop 4).take 8) < 2 ^ 64 := ofLE_take_lt ((data.drop 4).drop 4) 8
  have hword : (UInt64.ofNat (ofLE (((data.drop 4).drop 4).take 8))).toNat =
      ofLE (((data.drop 4).drop 4).take 8) := by
    rw [UInt64.toNat_ofNat', Nat.mod_eq_of_lt hcrc]
  have hpack : pack ([4, 4, 8].zip (unpack [4, 4, 8] data)) = data.take 16 := pack_unpack [4, 4, 8] h
  show pack [(4, ofLE (data.take 4)), (4, ofLE ((data.drop 4).take 4)),
    (8, (UInt64.ofNat (ofLE (((data.drop 4).drop 4).take 8))).toNat)] = _
  rw [hword]
  exact hpack

theorem read_append (h : 16 ≤ data.length) (rest : Bytes) :
    read (data ++ rest) = read data := by
  obtain ⟨hunc, hcomp⟩ := sizes_read_lt data
  have hdata : data ++ rest = (read data).bytes ++ (data.drop 16 ++ rest) := by
    rw [bytes_read h, ← append_assoc, take_append_drop]
  rw [hdata]
  exact read_bytes_append hunc hcomp _

end BlockHeader

open BlockHeader

/-- The largest size a reader accepts in a header. -/
def kMaxWireBlockBytes : ℕ := 64 * 1024 * 1024

/-! ### Reading -/

/-- `CrcVerifyStage`, then `DecompressStage`: the plaintext of a block, none if a stage fails. -/
def decodeBlock (c : Codecs) (type : CompressionType) (h : BlockHeader) (payload : Bytes) :
    Option Bytes :=
  if c.dataChecksum payload = h.crc then
    match c.compressor type with
    | none => some payload
    | some compressor =>
      if h.compSize = h.uncSize then some payload
      else (compressor.decompressTo payload h.uncSize).filter fun plain => plain.length = h.uncSize
  else none

structure ReadPipeline (σ : Type*) where
  source : σ
  hdrPartial : Bool := false
  failed : Bool := false
  eof : Bool := false

section Blocks

variable {σ : Type*} (S : Source σ) (decode : BlockHeader → Bytes → Option Bytes)

/-- The body of a block whose header has been read, and its stages. -/
def readBody (p : ReadPipeline σ) (h : BlockHeader) : Option Bytes × ReadPipeline σ :=
  -- sizes are bounded before anything is allocated
  if kMaxWireBlockBytes < h.uncSize ∨ kMaxWireBlockBytes < h.compSize then
    (none, { p with failed := true })
  else
    let body := pullExact S h.compSize p.hdrPartial p.source
    let p := { p with source := body.source, hdrPartial := body.part }
    match body.bytes.bind (decode h) with
    | none => (none, { p with failed := true })
    | some plain => (some plain, p)

/-- The next block: its plaintext, or none at the end and after a failure. -/
def nextBlock (p : ReadPipeline σ) : Option Bytes × ReadPipeline σ :=
  if p.failed ∨ p.eof then (none, p)
  else
    let hdr := pullExact S 16 p.hdrPartial p.source
    let p := { p with source := hdr.source, hdrPartial := hdr.part }
    match hdr.bytes with
    | none =>
      -- nothing at all where a header was due is taken for the end, unless the mark says otherwise;
      -- the mark is shared with the pulls of bodies
      if hdr.part then (none, { p with failed := true }) else (none, { p with eof := true })
    | some bytes => readBody S decode { p with hdrPartial := false } (read bytes)

/-- A block as it stands in the source. -/
def IsBlock (block plain : Bytes) : Prop :=
  ∃ header payload, block = header ++ payload ∧ header.length = 16 ∧
    payload.length = (read header).compSize ∧
    (read header).uncSize ≤ kMaxWireBlockBytes ∧
    (read header).compSize ≤ kMaxWireBlockBytes ∧
    decode (read header) payload = some plain

/-- The bytes are whole blocks, one after another, with these plaintexts. -/
inductive Decoded : Bytes → List Bytes → Prop
  | nil : Decoded [] []
  | concat {wire block plain : Bytes} {plains : List Bytes} (front : Decoded wire plains)
      (last : IsBlock decode block plain) : Decoded (wire ++ block) (plains ++ [plain])

variable {S decode} {taken : σ → Bytes} {out : Option Bytes} {p' p : ReadPipeline σ}

/-- A body that is read makes a whole block of the header before it. -/
theorem readBody_spec (hS : S.Takes taken) (p : ReadPipeline σ) {header : Bytes}
    (hheader : header.length = 16)
    (h : readBody S decode p (read header) = (out, p')) :
    (out = none ∧ p'.failed = true) ∨
      ∃ plain payload, out = some plain ∧ p'.failed = p.failed ∧ p'.eof = p.eof ∧
        taken p'.source = taken p.source ++ payload ∧ IsBlock decode (header ++ payload) plain := by
  unfold readBody at h
  split at h
  · cases h
    exact .inl ⟨rfl, rfl⟩
  rename_i hsizes
  dsimp only at h
  cases hbytes : (pullExact S (read header).compSize p.hdrPartial p.source).bytes.bind
      (decode (read header)) with
  | none =>
    rw [hbytes] at h
    cases h
    exact .inl ⟨rfl, rfl⟩
  | some plain =>
    rw [hbytes] at h
    cases h
    obtain ⟨payload, hpayload, hdecode⟩ := Option.bind_eq_some_iff.mp hbytes
    obtain ⟨got, htaken, ⟨hsome, hlength⟩ | ⟨hnone, -⟩⟩ :=
      pullExact_spec hS (read header).compSize p.hdrPartial p.source
    · rw [hpayload, Option.some.injEq] at hsome
      subst hsome
      have hunc : (read header).uncSize ≤ kMaxWireBlockBytes := by omega
      have hcomp : (read header).compSize ≤ kMaxWireBlockBytes := by omega
      exact .inr ⟨plain, payload, rfl, rfl, rfl, htaken,
        header, payload, rfl, hheader, hlength, hunc, hcomp, hdecode⟩
    · rw [hpayload] at hnone
      cases hnone

/-- **The next block.**  A block that is returned is the next one of the source.  Otherwise the pipeline
has failed, or it reports the end: then nothing came where a header was due, and the mark was not set. -/
theorem nextBlock_spec (hS : S.Takes taken) (hfailed : p.failed = false) (heof : p.eof = false)
    (h : nextBlock S decode p = (out, p')) :
    (∃ plain block, out = some plain ∧ p'.failed = false ∧ p'.eof = false ∧
        taken p'.source = taken p.source ++ block ∧ IsBlock decode block plain) ∨
      (out = none ∧ p'.failed = true) ∨
      (out = none ∧ p'.failed = false ∧ taken p'.source = taken p.source ∧ p.hdrPartial = false ∧
        S.piece p.source 16 = []) := by
  have hready : ¬(p.failed = true ∨ p.eof = true) := by simp [hfailed, heof]
  unfold nextBlock at h
  rw [if_neg hready] at h
  dsimp only at h
  obtain ⟨got, htaken, ⟨hsome, hlength⟩ | ⟨hnone, hshort, hpart⟩⟩ :=
    pullExact_spec hS 16 p.hdrPartial p.source
  · rw [hsome] at h
    rcases readBody_spec hS _ hlength h with hfail | ⟨plain, payload, hout, hf, he, ht, hblock⟩
    · exact .inr (.inl hfail)
    · refine .inl ⟨plain, got ++ payload, hout, hf.trans hfailed, he.trans heof, ?_, hblock⟩
      rw [ht, htaken, append_assoc]
  · rw [hnone] at h
    cases hmark : (pullExact S 16 p.hdrPartial p.source).part with
    | true =>
      rw [hmark] at h
      cases h
      exact .inr (.inl ⟨rfl, rfl⟩)
    | false =>
      rw [hmark] at h
      cases h
      rw [hmark] at hpart
      have hunmarked : p.hdrPartial = false := by
        cases hp : p.hdrPartial with
        | false => rfl
        | true => simp [hp] at hpart
      have hgot : got = [] := by
        by_contra hne
        simp [hne] at hpart
      have hpiece : S.piece p.source 16 = [] := by
        by_contra hne
        have hset := part_pullExact p.hdrPartial hne hnone hS
        rw [hmark] at hset
        cases hset
      exact .inr (.inr ⟨rfl, hfailed, by rw [htaken, hgot, append_nil], hunmarked, hpiece⟩)

variable (decode) in
/-- Nothing where a header is due, and no mark: taken for the end. -/
theorem nextBlock_of_piece_eq_nil (hfailed : p.failed = false)
    (heof : p.eof = false) (hmark : p.hdrPartial = false) (hpiece : S.piece p.source 16 = []) :
    ∃ p', nextBlock S decode p = (none, p') ∧ p'.failed = false ∧ p'.source = (S.pull p.source 16).2 := by
  have hready : ¬(p.failed = true ∨ p.eof = true) := by simp [hfailed, heof]
  rw [nextBlock, if_neg hready, pullExact_of_piece_eq_nil (by decide) _ hpiece, hmark]
  exact ⟨_, rfl, hfailed, rfl⟩

end Blocks

end Fly.Storage
