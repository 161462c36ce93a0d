import Mathlib.Algebra.Order.BigOperators.Group.List
import Fly.Storage.MemorySource

/-!
# A record reads back

What a writer wrote, in any pieces, comes back from the record in memory.

* `RoundTrip` — the record is accepted, reads back as the bytes, and its trailer is right;
* `Restorable` — a block that a reader can take: at most 64 MiB of plaintext, and stored raw or
  decompressed to its plaintext again;
* `roundTrip_iff` — the record makes the round trip **iff** every block is restorable.
-/

namespace Fly.Storage

open Fly.Lib List Option MemoryChunkSource Nat ObjectHeader WritePipeline StoredBlock

/-! ### Plaintexts from their concatenation -/

section Concatenation

variable {α β : Type*} {decode : β → Option (List α)} {plain : β → List α} {bs : List β}
  {outs : List (List α)}

theorem length_flatten_le_of_map_eq (hmap : bs.map decode = outs.map some)
    (hle : ∀ b ∈ bs, ∀ out, decode b = some out → out.length ≤ (plain b).length) :
    outs.flatten.length ≤ (bs.map plain).flatten.length := by
  induction bs generalizing outs with
  | nil =>
    rw [map_nil, eq_comm, map_eq_nil_iff] at hmap
    simp [hmap]
  | cons b bs ih =>
    obtain ⟨out, outs, rfl, hout, hmap⟩ := map_eq_cons_iff.mp hmap.symm
    have hhead := hle b mem_cons_self out hout.symm
    have htail := ih hmap.symm fun x hx => hle x (mem_cons_of_mem b hx)
    rw [map_cons, flatten_cons, flatten_cons, length_append, length_append]
    omega

/-- If no decoded piece is longer than it should be and together they are right, each is right. -/
theorem decode_eq_plain_of_flatten_eq (plain : β → List α) (hmap : bs.map decode = outs.map some)
    (hle : ∀ b ∈ bs, ∀ out, decode b = some out → out.length ≤ (plain b).length)
    (hflat : outs.flatten = (bs.map plain).flatten) : ∀ b ∈ bs, decode b = some (plain b) := by
  induction bs generalizing outs with
  | nil => nofun
  | cons b bs ih =>
    obtain ⟨out, outs, rfl, hout, hmaps⟩ := map_eq_cons_iff.mp hmap.symm
    have hrest : ∀ x ∈ bs, ∀ out, decode x = some out → out.length ≤ (plain x).length :=
      fun x hx => hle x (mem_cons_of_mem b hx)
    have hhead := hle b mem_cons_self out hout.symm
    have htail := length_flatten_le_of_map_eq hmaps.symm hrest
    rw [map_cons, flatten_cons, flatten_cons] at hflat
    -- the lengths of both parts can only be equal
    have hsum := congrArg length hflat
    rw [length_append, length_append] at hsum
    obtain ⟨hfirst, hothers⟩ := append_inj hflat (by omega)
    exact forall_mem_cons.mpr ⟨hfirst ▸ hout.symm, ih hmaps.symm hrest hothers⟩

end Concatenation

/-! ### What is stored for a block -/

variable {type : CompressionType} {k : Compressor}

theorem Codecs.compressor_type {c : Codecs}
    (h : c.compressor type = some k) : c.compressor k.type = some k := by
  cases type with
  | none => cases h
  | lz4 | zlib | zstd =>
    cases h
    rw [c.type_create]
    rfl

section Stored

variable {c : Codecs} {compressor : Option Compressor} {rawThreshold : ℤ} {tail : Bool} {plain : Bytes}
  {b : StoredBlock} (hb : storeBlock c compressor rawThreshold tail plain = b)

include hb

/-- Raw, or compressed to less than 85 % of the size. -/
theorem storeBlock_cases : (b.raw = true ∧ b.payload = plain) ∨
    (b.raw = false ∧ ∃ k, compressor = some k ∧ b.payload.length * 100 < plain.length % 2 ^ 32 * 85) := by
  subst hb
  unfold storeBlock compressStage
  cases compressor with
  | none => exact .inl ⟨rfl, rfl⟩
  | some k =>
    dsimp only
    split
    · exact .inl ⟨rfl, rfl⟩
    · split
      · next hsmall => exact .inr ⟨rfl, k, rfl, hsmall⟩
      · exact .inl ⟨rfl, rfl⟩

/-- A raw block decodes to its plaintext, whatever the type says. -/
theorem decodeBlock_of_raw (type : CompressionType) (hraw : b.raw = true) :
    decodeBlock c type b.header b.payload = some plain := by
  rcases storeBlock_cases hb with ⟨-, hpayload⟩ | ⟨hnot, -⟩
  · have hsizes : b.header.compSize = b.header.uncSize := by
      subst hb
      show (storeBlock c compressor rawThreshold tail plain).payload.length % 2 ^ 32 = _
      rw [hpayload]
      rfl
    have hcrc : c.dataChecksum b.payload = b.header.crc := hb ▸ rfl
    unfold decodeBlock
    rw [if_pos hcrc, hpayload]
    cases c.compressor type with
    | none => rfl
    | some k =>
      dsimp only
      rw [if_pos hsizes]
  · rw [hraw] at hnot
    cases hnot

/-- A compressed block goes through the compressor of the type. -/
theorem decodeBlock_of_compressed (htype : c.compressor type = compressor) (hraw : b.raw = false) :
    decodeBlock c type b.header b.payload =
      (compressor.bind fun k => k.decompressTo b.payload (plain.length % 2 ^ 32)).filter
        fun out => out.length = plain.length % 2 ^ 32 := by
  rcases storeBlock_cases hb with ⟨hnot, -⟩ | ⟨-, k, rfl, hsmall⟩
  · rw [hraw] at hnot
    cases hnot
  have hsizes : ¬b.header.compSize = b.header.uncSize := by
    subst hb
    show ¬(storeBlock c (some k) rawThreshold tail plain).payload.length % 2 ^ 32 = plain.length % 2 ^ 32
    have hmod := mod_le (storeBlock c (some k) rawThreshold tail plain).payload.length (2 ^ 32)
    omega
  have hcrc : c.dataChecksum b.payload = b.header.crc := hb ▸ rfl
  unfold decodeBlock
  rw [if_pos hcrc, htype]
  dsimp only
  rw [if_neg hsizes]
  subst hb
  rfl

omit hb

/-- The compressor of the type succeeds on all data but none, and decompression undoes it; a compression that
fails answers with no bytes. -/
def Codecs.RoundTrips (c : Codecs) (type : CompressionType) : Prop :=
  ∀ k, c.compressor type = some k → ∀ plain, plain ≠ [] →
    k.compress plain ≠ [] ∧ k.decompressTo (k.compress plain) plain.length = some plain

theorem payload_of_compressed (hraw : (storeBlock c (some k) rawThreshold tail plain).raw = false) :
    (storeBlock c (some k) rawThreshold tail plain).payload = k.compress plain := by
  have hstage : (compressStage (some k) rawThreshold tail plain).2 = false := hraw
  show (compressStage (some k) rawThreshold tail plain).1 = k.compress plain
  unfold compressStage at hstage ⊢
  dsimp only at hstage ⊢
  split at hstage
  · cases hstage
  rename_i hlarge
  rw [if_neg hlarge]
  split at hstage
  · next hsmall => rw [if_pos hsmall]
  · cases hstage

theorem length_payload_le :
    (storeBlock c compressor rawThreshold tail plain).payload.length ≤ plain.length := by
  rcases storeBlock_cases (b := storeBlock c compressor rawThreshold tail plain) rfl with ⟨-, hraw⟩ |
    ⟨-, k, -, hsmall⟩
  · rw [hraw]
  · omega

section Codec

variable {type : CompressionType} (hround : c.RoundTrips type) (hplain : plain ≠ [])

include hround hplain

theorem payload_ne_nil : (storeBlock c (c.compressor type) rawThreshold tail plain).payload ≠ [] := by
  rcases storeBlock_cases (b := storeBlock c (c.compressor type) rawThreshold tail plain) rfl with ⟨-, hraw⟩ |
    ⟨hraw, k, hk, -⟩
  · rw [hraw]
    exact hplain
  · rw [hk] at hraw ⊢
    rw [payload_of_compressed hraw]
    exact (hround k hk plain hplain).1

/-- **What is stored of a block is decoded to its plaintext.** -/
theorem decodeBlock_storeBlock (hlength : plain.length < 2 ^ 32) :
    decodeBlock c type (storeBlock c (c.compressor type) rawThreshold tail plain).header
      (storeBlock c (c.compressor type) rawThreshold tail plain).payload = some plain := by
  rcases storeBlock_cases (b := storeBlock c (c.compressor type) rawThreshold tail plain) rfl with ⟨hraw, -⟩ |
    ⟨hraw, k, hk, -⟩
  · exact decodeBlock_of_raw rfl type hraw
  · rw [decodeBlock_of_compressed rfl rfl hraw, mod_eq_of_lt hlength]
    rw [hk] at hraw ⊢
    rw [payload_of_compressed hraw, bind_some, (hround k hk plain hplain).2]
    simp

end Codec

end Stored

/-! ### The record -/

namespace FlyStream

variable (c : Codecs) (f : FlyStream)

def stored (b : Bytes × Bool) : StoredBlock :=
  WritePipeline.stored c (c.compressor f.compressionType) f.compressionThreshold b

/-- The record of the calls, in the hands of a reader. -/
def reader (calls : List WriteCall) : MemoryChunkSource :=
  parseTrailer c (f.finishWrite c calls)

/-- The record is accepted, reads back as the bytes, and its trailer has the length of the plaintext, the
number of the blocks and their stored lengths. -/
structure RoundTrip (calls : List WriteCall) : Prop where
  accepted : (f.reader c calls).failureDetail = none
  readsBack : (f.reader c calls).ReadsBack (decodeBlock c (f.reader c calls).compressionType)
    (writtenBytes calls)
  trailer : ∃ header trailerLen,
    ObjectHeader.deserializeTrailer c (f.finishWrite c calls) = some (header, trailerLen) ∧
    header.totalSize = (writtenBytes calls).length ∧
    header.chunkCount = (f.pipeline c calls).blocks.length ∧
    header.blockCompLens = (f.pipeline c calls).blocks.map fun b => (f.stored c b).payload.length

/-- A reader can take the block: it is within the bound, and raw or decompressed to its plaintext. -/
def Restorable (b : Bytes × Bool) : Prop :=
  b.1.length ≤ kMaxWireBlockBytes ∧ ((f.stored c b).raw = true ∨
      ((c.compressor f.compressionType).bind fun k =>
        k.decompressTo (f.stored c b).payload b.1.length) = some b.1)

instance (b : Bytes × Bool) : Decidable (f.Restorable c b) :=
  inferInstanceAs (Decidable (_ ∧ _))

variable {c f} {calls : List WriteCall} {data : Bytes}

theorem compSize_le (b : Bytes × Bool) :
    (f.stored c b).header.compSize ≤ (f.stored c b).payload.length := Nat.mod_le _ _

/-- A restorable block is stored with its own sizes. -/
theorem Restorable.aligned {b : Bytes × Bool} (h : f.Restorable c b) : (f.stored c b).Aligned := by
  have hlength : b.1.length ≤ 64 * 1024 * 1024 := h.1
  have hle : (f.stored c b).payload.length ≤ b.1.length := length_payload_le
  have hpayload : (f.stored c b).payload.length < 2 ^ 31 := by omega
  exact ⟨Nat.mod_lt _ (by decide), Nat.mod_eq_of_lt (hpayload.trans (by decide)), hpayload⟩

/-- If some block is compressed, the type in the trailer is that of the compressor. -/
theorem compressor_effectiveCompressionType (hchunk : 0 < f.chunkSize)
    (hcount : (f.pipeline c calls).blocks.length < 2 ^ 30)
    (hcompressed : ∃ b ∈ (f.pipeline c calls).blocks, (f.stored c b).raw = false) :
    c.compressor (f.effectiveCompressionType c (f.pipeline c calls)) = c.compressor f.compressionType := by
  obtain ⟨hdescribes, -⟩ := f.describes_pipeline c hchunk calls
  have hmixed : (f.pipeline c calls).allRaw = false := by
    refine decide_eq_false fun ⟨_, hall⟩ => ?_
    obtain ⟨b, hb, hraw⟩ := hcompressed
    rw [hdescribes.raw, hdescribes.count,
      Nat.mod_eq_of_lt (countP_le_length.trans_lt (by omega)), Nat.mod_eq_of_lt (by omega)] at hall
    have htrue := countP_eq_length.mp hall b hb
    exact Bool.false_ne_true (hraw.symm.trans htrue)
  rw [effectiveCompressionType, hmixed, if_neg Bool.false_ne_true]
  cases hcompressor : c.compressor f.compressionType with
  | none => rfl
  | some k => exact Codecs.compressor_type hcompressor

variable (c f) in
/-- What a reader makes of a block, with the type of the trailer. -/
def decoded (calls : List WriteCall) (b : Bytes × Bool) : Option Bytes :=
  decodeBlock c (f.effectiveCompressionType c (f.pipeline c calls)) (f.stored c b).header
    (f.stored c b).payload

section Record

variable (hchunk : 0 < f.chunkSize) (hname : f.pyName.length < 2 ^ 16)
  (hcount : (f.pipeline c calls).blocks.length < 2 ^ 30)
include hchunk hcount

variable {b : Bytes × Bool}

section

variable (hb : b ∈ (f.pipeline c calls).blocks)
include hb

theorem decode_stored : f.decoded c calls b =
      if (f.stored c b).raw then some b.1
      else ((c.compressor f.compressionType).bind fun k =>
        k.decompressTo (f.stored c b).payload (b.1.length % 2 ^ 32)).filter
          fun out => out.length = b.1.length % 2 ^ 32 := by
  by_cases hraw : (f.stored c b).raw = true
  · rw [if_pos hraw]
    exact decodeBlock_of_raw rfl _ hraw
  · rw [if_neg hraw]
    have hfalse : (f.stored c b).raw = false := by simpa using hraw
    exact decodeBlock_of_compressed rfl
      (compressor_effectiveCompressionType hchunk hcount ⟨b, hb, hfalse⟩) hfalse

/-- A compressed block has plaintext. -/
theorem decode_stored_ne_nil : f.decoded c calls b ≠ some [] := by
  rw [decode_stored hchunk hcount hb]
  split
  · have hne := (f.describes_pipeline c hchunk calls).1.nonempty b hb
    simpa using hne
  rename_i hraw
  intro hnil
  have hlength := (filter_eq_some_iff.mp hnil).2
  rcases storeBlock_cases (b := f.stored c b) rfl with
    ⟨hnot, -⟩ | ⟨-, k, -, hsmall⟩
  · exact hraw hnot
  · simp at hlength
    omega

/-- What a reader makes of a block is not longer than its plaintext. -/
theorem length_decode_stored {out : Bytes} (hout : f.decoded c calls b = some out) :
    out.length ≤ b.1.length := by
  rw [decode_stored hchunk hcount hb] at hout
  split at hout
  · rw [← Option.some.inj hout]
  · have hlength : out.length = b.1.length % 2 ^ 32 := by
      simpa using (filter_eq_some_iff.mp hout).2
    rw [hlength]
    exact Nat.mod_le _ _

theorem decode_stored_of_restorable (h : f.Restorable c b) : f.decoded c calls b = some b.1 := by
  have hlength : b.1.length ≤ 64 * 1024 * 1024 := h.1
  have hmod : b.1.length % 2 ^ 32 = b.1.length := Nat.mod_eq_of_lt (by omega)
  rw [decode_stored hchunk hcount hb, hmod]
  split
  · rfl
  · next hraw => rw [h.2.resolve_left hraw, filter_some_pos (by simp)]

end

/-- The plaintexts of the stored blocks are the bytes exactly when every block is restorable. -/
theorem plaintexts_iff (haligned : ∀ b ∈ (f.pipeline c calls).blocks, (f.stored c b).Aligned) :
    MemoryChunkSource.Plaintexts (decodeBlock c (f.effectiveCompressionType c (f.pipeline c calls)))
        ((f.pipeline c calls).blocks.map (f.stored c)) (writtenBytes calls) ↔
      ∀ b ∈ (f.pipeline c calls).blocks, f.Restorable c b := by
  obtain ⟨hdescribes, hbuf⟩ := f.describes_pipeline c hchunk calls
  have hbytes := hdescribes.data
  rw [hbuf, append_nil] at hbytes
  constructor
  · rintro ⟨hsound, plains, hplains, hflat⟩ b hb
    rw [List.map_map] at hplains
    have hright := decode_eq_plain_of_flatten_eq Prod.fst hplains
      (fun x hx out hout => length_decode_stored hchunk hcount hx hout) (hflat.trans hbytes.symm) b hb
    have hb' := hsound _ (mem_map_of_mem hb)
    have hunc : b.1.length % 2 ^ 32 ≤ kMaxWireBlockBytes := hb'.uncSize
    have hcomp : (f.stored c b).payload.length ≤ kMaxWireBlockBytes :=
      (haligned b hb).compSize ▸ hb'.compSize
    have hdecode : f.decoded c calls b = some b.1 := hright
    rw [decode_stored hchunk hcount hb] at hdecode
    rcases storeBlock_cases (b := f.stored c b) rfl with
      ⟨hraw, hpayload⟩ | ⟨hraw, -⟩
    · refine ⟨?_, .inl hraw⟩
      rw [show (f.stored c b).payload = b.1 from hpayload] at hcomp
      exact hcomp
    · rw [show (f.stored c b).raw = false from hraw, if_neg Bool.false_ne_true] at hdecode
      obtain ⟨hsome, hlength⟩ := filter_eq_some_iff.mp hdecode
      have hmod : b.1.length = b.1.length % 2 ^ 32 := by simpa using hlength
      rw [← hmod] at hsome hunc
      exact ⟨hunc, .inr hsome⟩
  · intro hrestorable
    refine ⟨fun x hx => ?_, (f.pipeline c calls).blocks.map Prod.fst, ?_, hbytes⟩
    · obtain ⟨b, hb, rfl⟩ := mem_map.mp hx
      have hlength : b.1.length ≤ kMaxWireBlockBytes := (hrestorable b hb).1
      refine ⟨(Nat.mod_le _ _).trans hlength, (compSize_le b).trans (length_payload_le.trans hlength), ?_⟩
      exact (decode_stored_of_restorable hchunk hcount hb (hrestorable b hb)).trans_ne (some_ne_none b.1)
    · rw [List.map_map, List.map_map]
      exact map_congr_left fun b hb =>
        decode_stored_of_restorable hchunk hcount hb (hrestorable b hb)

omit hchunk hcount in
theorem emitted_eq (hchunk : 0 < f.chunkSize) : (f.pipeline c calls).emitted =
    ((f.pipeline c calls).blocks.map (f.stored c)).flatMap bytes := by
  rw [(f.describes_pipeline c hchunk calls).1.emitted, List.flatMap_def, List.map_map]
  rfl

include hname

theorem fits_header : (f.header c (f.pipeline c calls)).Fits := by
  obtain ⟨hdescribes, -⟩ := f.describes_pipeline c hchunk calls
  have hlens : (f.header c (f.pipeline c calls)).blockCompLens =
      (f.pipeline c calls).blocks.map fun b => (f.stored c b).header.compSize := hdescribes.lens
  refine ⟨hname, ?_, ?_, ?_, ?_⟩
  · rw [hlens, length_map]
    exact hcount
  · rw [hlens, length_map]
    exact hdescribes.count.trans (Nat.mod_eq_of_lt (by omega))
  · exact hdescribes.total.trans_lt (Nat.mod_lt _ (by decide))
  · rw [hlens]
    intro len hlen
    obtain ⟨b, -, rfl⟩ := mem_map.mp hlen
    exact Nat.mod_lt _ (by decide)

/-- What a reader sees of the record. -/
theorem reader_eq : f.reader c calls =
    { data := f.finishWrite c calls
      failureDetail := reconcile (f.pipeline c calls).emitted (f.pipeline c calls).blockCompLens 0
      blockAreaLen := (f.pipeline c calls).emitted.length
      pyName := f.pyName
      totalUncompressed := (f.pipeline c calls).totalUncompressed
      chunkCount := (f.pipeline c calls).chunkCount
      compressionType := f.effectiveCompressionType c (f.pipeline c calls) } :=
  parseTrailer_append c (fits_header hchunk hname hcount) _

/-- The record is accepted exactly when every block is stored with its own sizes. -/
theorem accepted_iff : (f.reader c calls).failureDetail = none ↔
    ∀ b ∈ (f.pipeline c calls).blocks, (f.stored c b).Aligned := by
  have hlens : (f.pipeline c calls).blockCompLens =
      ((f.pipeline c calls).blocks.map (f.stored c)).map fun b => b.header.compSize := by
    rw [(f.describes_pipeline c hchunk calls).1.lens, List.map_map]
    rfl
  rw [reader_eq hchunk hname hcount]
  rw [emitted_eq hchunk, hlens]
  constructor
  · intro haccepted
    obtain ⟨hsum, hsmall⟩ := length_of_reconcile haccepted
    rw [List.length_flatMap, Nat.zero_add, List.map_map, List.map_map, List.map_map] at hsum
    intro b hb
    have hcomp : (f.stored c b).header.compSize < 2 ^ 31 :=
      hsmall _ (mem_map_of_mem (mem_map_of_mem hb))
    have heq : (f.stored c b).header.compSize = (f.stored c b).payload.length := by
      by_contra hne
      refine absurd hsum (Nat.ne_of_lt (sum_lt_sum _ _ (fun x hx => ?_) ⟨b, hb, ?_⟩))
      · show 16 + (f.stored c x).header.compSize ≤ (f.stored c x).bytes.length
        rw [length_bytes]
        exact Nat.add_le_add_left (compSize_le x) 16
      · show 16 + (f.stored c b).header.compSize < (f.stored c b).bytes.length
        rw [length_bytes]
        exact Nat.add_lt_add_left (lt_of_le_of_ne (compSize_le b) hne) 16
    exact ⟨Nat.mod_lt _ (by decide), heq, heq ▸ hcomp⟩
  · intro haligned
    refine reconcile_of_aligned [] _ fun x hx => ?_
    obtain ⟨b, hb, rfl⟩ := mem_map.mp hx
    exact haligned b hb

/-- An accepted record reads back exactly when every block is restorable. -/
theorem readsBack_iff_restorable (haccepted : (f.reader c calls).failureDetail = none) :
    (f.reader c calls).ReadsBack (decodeBlock c (f.reader c calls).compressionType) (writtenBytes calls) ↔
      ∀ b ∈ (f.pipeline c calls).blocks, f.Restorable c b := by
  have haligned := (accepted_iff hchunk hname hcount).mp haccepted
  rw [← plaintexts_iff hchunk hcount haligned]
  have hm : (f.reader c calls).failed = false := by
    rw [failed, haccepted]
    rfl
  rw [reader_eq hchunk hname hcount] at hm ⊢
  refine readsBack_iff hm ?_ ?_ (fun x hx => ?_) (fun x hx => ?_) _
  · exact take_left.trans (emitted_eq hchunk)
  · show ((f.finishWrite c calls).take (f.pipeline c calls).emitted.length).length = _
    rw [finishWrite, take_left]
  · obtain ⟨b, hb, rfl⟩ := mem_map.mp hx
    exact haligned b hb
  · obtain ⟨b, hb, rfl⟩ := mem_map.mp hx
    exact decode_stored_ne_nil hchunk hcount hb

/-- The trailer of a record of restorable blocks. -/
theorem trailer_of_restorable (h : ∀ b ∈ (f.pipeline c calls).blocks, f.Restorable c b) :
    ∃ header trailerLen,
      ObjectHeader.deserializeTrailer c (f.finishWrite c calls) = some (header, trailerLen) ∧
      header.totalSize = (writtenBytes calls).length ∧
      header.chunkCount = (f.pipeline c calls).blocks.length ∧
      header.blockCompLens = (f.pipeline c calls).blocks.map fun b => (f.stored c b).payload.length := by
  obtain ⟨hdescribes, hbuf⟩ := f.describes_pipeline c hchunk calls
  have hread := ObjectHeader.deserializeTrailer_append c (fits_header hchunk hname hcount)
    (f.pipeline c calls).emitted
  refine ⟨_, _, hread, ?_, hdescribes.count.trans (Nat.mod_eq_of_lt (by omega)), ?_⟩
  · have hbytes := hdescribes.data
    rw [hbuf, append_nil] at hbytes
    rw [← hbytes]
    refine hdescribes.total.trans (Nat.mod_eq_of_lt ?_)
    -- fewer than 2 ^ 30 blocks of at most 2 ^ 26 bytes
    have hsum : ((f.pipeline c calls).blocks.map fun b => b.1.length).sum ≤
        (f.pipeline c calls).blocks.length * kMaxWireBlockBytes := by
      have := sum_le_card_nsmul ((f.pipeline c calls).blocks.map fun b => b.1.length) kMaxWireBlockBytes (by
          intro n hn
          obtain ⟨b, hb, rfl⟩ := mem_map.mp hn
          exact (h b hb).1)
      rwa [length_map] at this
    rw [List.length_flatten, List.map_map]
    refine hsum.trans_lt ?_
    rw [kMaxWireBlockBytes]
    omega
  · refine hdescribes.lens.trans (map_congr_left fun b hb => ?_)
    exact (h b hb).aligned.compSize

theorem RoundTrip.restorable (h : f.RoundTrip c calls) :
    ∀ b ∈ (f.pipeline c calls).blocks, f.Restorable c b :=
  (readsBack_iff_restorable hchunk hname hcount h.accepted).mp h.readsBack

theorem roundTrip_of_restorable (h : ∀ b ∈ (f.pipeline c calls).blocks, f.Restorable c b) :
    f.RoundTrip c calls := by
  have haccepted := (accepted_iff hchunk hname hcount).mpr fun b hb => (h b hb).aligned
  exact ⟨haccepted, (readsBack_iff_restorable hchunk hname hcount haccepted).mpr h,
    trailer_of_restorable hchunk hname hcount h⟩

/-- **A record makes the round trip exactly when every block is restorable**, for any calls, chunk size,
threshold, checksum and compressors, with fewer than 2 ^ 30 blocks (the length of the table has 32 bits) and
a name shorter than 2 ^ 16.  A block whose compression succeeded and is undone by decompression fails only
by its size; one whose compression failed is stored as an empty payload. -/
theorem roundTrip_iff : f.RoundTrip c calls ↔ ∀ b ∈ (f.pipeline c calls).blocks, f.Restorable c b :=
  ⟨fun h => h.restorable hchunk hname hcount, roundTrip_of_restorable hchunk hname hcount⟩

end Record

/-- Compressors for zeros: the length in one byte. -/
def zeroCodecs : Codecs where
  dataChecksum data := UInt64.ofNat (ofLE data)
  create type := ⟨type, fun data => [UInt8.ofNat data.length], fun _ n => some (replicate n 0)⟩
  type_create _ := rfl

/-- Twenty zeros, in two writes with a flush between: two compressed blocks and two raw ones. -/
theorem roundTrip_zeros : RoundTrip zeroCodecs ⟨8, .zstd, 4, [79]⟩
      [.write (List.replicate 9 0), .flush, .write (List.replicate 11 0)] :=
  (roundTrip_iff (by decide) (by decide) (by decide)).mpr (by decide)

/-- A single write shorter than a chunk makes one block. -/
theorem blocks_pipeline_of_short (hne : data ≠ []) (hshort : data.length < f.chunkSize) :
    (f.pipeline c [.write data]).blocks = [(data, true)] := by
  have hpos := length_pos_iff.mpr hne
  have hdone : ∀ fuel (p : WritePipeline),
      writeFuel c (c.compressor f.compressionType) f.compressionThreshold f.chunkSize fuel [] p = p := by
    intro fuel p
    cases fuel with
    | zero => rfl
    | succ fuel => rfl
  have hfull : ∀ p : WritePipeline, p.buf.length < f.chunkSize →
      p.flushFull c (c.compressor f.compressionType) f.compressionThreshold f.chunkSize = p :=
    fun p hp => if_neg (Nat.ne_of_lt hp)
  have hwrite : write c (c.compressor f.compressionType) f.compressionThreshold
      f.chunkSize data {} = { buf := data } := by
    obtain ⟨n, hn⟩ : ∃ n, data.length = n + 1 := ⟨data.length - 1, by omega⟩
    rw [write, hn, writeFuel, if_neg hne, hfull {} (hpos.trans hshort)]
    dsimp only
    rw [length_nil, Nat.sub_zero, Nat.min_eq_right hshort.le, take_length, drop_length,
      nil_append, hfull _ hshort]
    exact hdone n _
  show (finish c _ _ (write c _ _ _ data {})).blocks = _
  rw [hwrite, finish, if_neg hne]
  rfl

/-- A block of more than 64 MiB is refused by the reader. -/
theorem not_roundTrip_of_large (hlarge : kMaxWireBlockBytes < data.length)
    (hshort : data.length < f.chunkSize) (hname : f.pyName.length < 2 ^ 16) :
    ¬f.RoundTrip c [.write data] := by
  intro h
  have hne : data ≠ [] := length_pos_iff.mp (zero_lt_of_lt hlarge)
  have hblocks := blocks_pipeline_of_short (c := c) hne hshort
  have hrestorable := h.restorable (Nat.zero_lt_of_lt hshort) hname
    (by rw [hblocks]; exact Nat.one_lt_two_pow (by decide))
  rw [hblocks] at hrestorable
  exact absurd (hrestorable _ mem_cons_self).1 (not_le.mpr hlarge)

/-- Without compression and with chunks of 128 MiB, one byte more than 64 MiB does not come back. -/
theorem not_roundTrip_large_block :
    ¬RoundTrip plainCodecs ⟨2 ^ 27, .none, 0, []⟩ [.write (replicate (2 ^ 26 + 1) 0)] :=
  not_roundTrip_of_large (by rw [length_replicate]; decide) (by rw [length_replicate]; decide) (by decide)

end FlyStream

end Fly.Storage
