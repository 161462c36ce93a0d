import Mathlib.Data.List.Forall2
import Fly.Storage.RoundTrip

/-!
# Changed records

A record may have been changed on its way to the reader.  Three checks stand against that: the checksum of
the trailer covers the trailer, the table of the trailer is compared with one of the two lengths in each
block header, and the checksum of a block covers what is stored for it.

* `cutLike` — the bytes of a changed record, cut where the blocks of the record are;
* `Unforged` — nothing that was changed carries a matching checksum;
* `LengthsKept` — the lengths of the plaintexts in the block headers are as they were;
* `failsOrDelivers_of_unforged` — then a reader sees a failure, or gets exactly what was written.

The length of the plaintext is covered by none of the checks: a block whose two lengths are made equal is
taken for a raw one.
-/

namespace Fly.Storage

open Fly.Lib List BlockHeader MemoryChunkSource ObjectHeader

/-! ### Lists that correspond -/

section Correspond

variable {α β : Type*} {R S : α → β → Prop} {l : List α} {l' : List β}

theorem forall₂_and (h : Forall₂ R l l') (h' : Forall₂ S l l') :
    Forall₂ (fun a b => R a b ∧ S a b) l l' := by
  induction h with
  | nil => exact .nil
  | cons hhead htail ih =>
    cases h' with
    | cons hhead' htail' => exact .cons ⟨hhead, hhead'⟩ (ih htail')

theorem exists_of_forall₂ (h : Forall₂ R l l') {b : β} (hb : b ∈ l') : ∃ a ∈ l, R a b := by
  induction h with
  | nil => cases hb
  | @cons x y xs ys hhead htail ih =>
    rcases mem_cons.mp hb with rfl | hb
    · exact ⟨x, mem_cons_self, hhead⟩
    · obtain ⟨a, ha, hR⟩ := ih hb
      exact ⟨a, mem_cons_of_mem x ha, hR⟩

end Correspond

/-! ### The blocks of a changed record -/

/-- The bytes cut into blocks of the same lengths. -/
def cutLike : List StoredBlock → Bytes → List StoredBlock
  | [], _ => []
  | b :: bs, data =>
    { header := read data
      payload := (data.drop 16).take b.payload.length
      raw := b.raw } :: cutLike bs (data.drop (16 + b.payload.length))

theorem length_flatMap_bytes_cons (b : StoredBlock) (blocks : List StoredBlock) :
    ((b :: blocks).flatMap StoredBlock.bytes).length =
      16 + b.payload.length + (blocks.flatMap StoredBlock.bytes).length := by
  rw [flatMap_cons, length_append, b.length_bytes]

variable {b : StoredBlock} {data : Bytes}

theorem uncSize_cutLike_lt (blocks : List StoredBlock) (data : Bytes)
    (hb : b ∈ cutLike blocks data) : b.header.uncSize < 2 ^ 32 := by
  induction blocks generalizing data with
  | nil => cases hb
  | cons x blocks ih =>
    rcases mem_cons.mp hb with rfl | hb
    · exact (sizes_read_lt data).1
    · exact ih _ hb

section

variable (blocks : List StoredBlock) {area : Bytes}
  (h : area.length = (blocks.flatMap StoredBlock.bytes).length)
include h

/-- What stands behind the blocks does not matter. -/
theorem cutLike_append (rest : Bytes) : cutLike blocks (area ++ rest) = cutLike blocks area := by
  induction blocks generalizing area with
  | nil => rfl
  | cons b blocks ih =>
    rw [length_flatMap_bytes_cons] at h
    have hpayload : ((area ++ rest).drop 16).take b.payload.length =
        (area.drop 16).take b.payload.length := by
      rw [drop_append_of_le_length (by omega), take_append_of_le_length (by rw [length_drop]; omega)]
    have htail : cutLike blocks ((area ++ rest).drop (16 + b.payload.length)) =
        cutLike blocks (area.drop (16 + b.payload.length)) := by
      rw [drop_append_of_le_length (by omega)]
      exact ih (by rw [length_drop]; omega)
    rw [cutLike, cutLike, BlockHeader.read_append (by omega), hpayload, htail]

/-- The blocks that were cut are the whole area. -/
theorem flatMap_cutLike : (cutLike blocks area).flatMap StoredBlock.bytes = area := by
  induction blocks generalizing area with
  | nil => exact (length_eq_zero_iff.mp h).symm
  | cons b blocks ih =>
    rw [length_flatMap_bytes_cons] at h
    rw [cutLike, flatMap_cons, ih (by rw [length_drop]; omega), StoredBlock.bytes,
      bytes_read (by omega), append_assoc, ← drop_drop, take_append_drop,
      take_append_drop]

/-- A cut block has the stored length of the block it stands for. -/
theorem payload_cutLike :
    Forall₂ (fun b b' => b'.payload.length = b.payload.length) blocks (cutLike blocks area) := by
  induction blocks generalizing area with
  | nil => exact .nil
  | cons b blocks ih =>
    rw [length_flatMap_bytes_cons] at h
    refine .cons ?_ (ih (by rw [length_drop]; omega))
    rw [length_take, length_drop]
    omega

/-- **The table fixes the stored lengths**: it is accepted only if every header has the length of the
block that stood there. -/
theorem compSize_of_reconcile (front : Bytes) (haligned : ∀ b ∈ blocks, b.Aligned)
    (haccepted : reconcile (front ++ area)
      (blocks.map fun b => b.header.compSize) front.length = none) :
    List.Forall₂ (fun b b' => b'.header.compSize = b.header.compSize) blocks (cutLike blocks area) := by
  induction blocks generalizing front area with
  | nil => exact .nil
  | cons b blocks ih =>
    have hcomp := (haligned b mem_cons_self).compSize
    rw [length_flatMap_bytes_cons] at h
    rw [map_cons, reconcile, drop_left] at haccepted
    split at haccepted
    · cases haccepted
    dsimp only at haccepted
    split at haccepted
    · cases haccepted
    rename_i hlen
    rw [not_or, not_not] at hlen
    refine .cons hlen.2 (ih (by rw [length_drop]; omega)
      (front ++ area.take (16 + b.payload.length)) (fun x hx => haligned x (mem_cons_of_mem b hx)) ?_)
    rw [append_assoc, take_append_drop, length_append, length_take,
      Nat.min_eq_left (by omega), ← Nat.add_assoc, ← hcomp, ← hlen.2]
    exact haccepted

end

/-! ### What a change may do -/

/-- Nothing that was changed carries a matching checksum: neither the trailer, wherever it begins, nor what
is stored for a block. -/
structure Unforged (c : Codecs) (blocks : List StoredBlock) (trailer data : Bytes) : Prop where
  trailer : ∀ front body crc, data = front ++ (body ++ crc) → 24 ≤ body.length → crc.length = 8 →
    (c.dataChecksum body).toNat = ofLE crc → trailer <:+ data
  blocks : Forall₂ (fun b b' => c.dataChecksum b'.payload = b'.header.crc →
    b'.payload = b.payload) blocks (cutLike blocks data)

/-- The headers still say how long the plaintexts are. -/
def LengthsKept (blocks : List StoredBlock) (data : Bytes) : Prop :=
  Forall₂ (fun b b' => b'.header.uncSize = b.header.uncSize) blocks (cutLike blocks data)

open DecompressingStreamBuf in
/-- However the record is read: at the end there is a failure, or exactly the bytes were delivered. -/
def MemoryChunkSource.FailsOrDelivers (m : MemoryChunkSource)
    (decode : BlockHeader → Bytes → Option Bytes) (bytes : Bytes) : Prop :=
  ∀ requests q, (serve m.source decode (serveAll m.source decode m.stream requests).2 q).ended = true →
    (serve m.source decode (serveAll m.source decode m.stream requests).2 q).buf.checksumFailed = true ∨
      (serveAll m.source decode m.stream requests).1 ++
        (serve m.source decode (serveAll m.source decode m.stream requests).2 q).out = bytes

namespace MemoryChunkSource

open DecompressingStreamBuf

/-- A source that says that it has failed is never read. -/
theorem failsOrDelivers_of_failed {m : MemoryChunkSource} (hm : m.failed = true)
    (decode : BlockHeader → Bytes → Option Bytes) (bytes : Bytes) : m.FailsOrDelivers decode bytes := by
  have hserve : ∀ (d : Bytes) (b : DecompressingStreamBuf ℕ m.blockAreaLen),
      b.checksumFailed = true → ∀ q, (serve m.source decode b q).buf.checksumFailed = true := by
    intro d b hb q
    refine (serve_rule (I := fun _ b => b.checksumFailed = true) (E := fun _ _ => True)
      (fun _ _ _ h => h) ?_ (d := d) hb q rfl).1
    intro d b b' ok hb _ hrefill
    refine ⟨?_, fun _ => trivial⟩
    cases hrefill with
    | failed before => exact hb
    | used ok full => exact hb
    | noBlock ok inside block => exact absurd (ok.symm.trans hb) Bool.false_ne_true
    | block ok inside block => exact absurd (ok.symm.trans hb) Bool.false_ne_true
  intro requests q _
  refine .inl (hserve [] _ ?_ q)
  exact serveAll_rule (I := fun _ b => b.checksumFailed = true) hm (fun d b hb q => hserve d b hb q)
    requests

end MemoryChunkSource

/-! ### Reading a changed record -/

section Changed

variable {c : Codecs} {type : CompressionType}
  {decode : BlockHeader → Bytes → Option Bytes} {blocks blocks' : List StoredBlock} {bytes : Bytes}

/-- A block that passes its checksum and has kept its lengths decodes to what it did. -/
theorem decodeBlock_of_unforged {b b' : StoredBlock} (hcrc : b.header.crc = c.dataChecksum b.payload)
    (hunforged : c.dataChecksum b'.payload = b'.header.crc → b'.payload = b.payload)
    (hunc : c.compressor type ≠ none → b'.header.uncSize = b.header.uncSize)
    (hcomp : b'.header.compSize = b.header.compSize) :
    decodeBlock c type b'.header b'.payload = none ∨
      decodeBlock c type b'.header b'.payload = decodeBlock c type b.header b.payload := by
  by_cases hmatch : c.dataChecksum b'.payload = b'.header.crc
  · have hpayload := hunforged hmatch
    refine .inr ?_
    rw [hpayload] at hmatch
    rw [hpayload, decodeBlock, decodeBlock, if_pos hmatch, if_pos hcrc.symm]
    cases hcompressor : c.compressor type with
    | none => rfl
    | some compressor => rw [hunc (hcompressor ▸ Option.some_ne_none compressor), hcomp]
  · exact .inl (if_neg hmatch)

/-- If all blocks of the changed record are decoded, they are decoded to the same plaintexts. -/
theorem map_decode_eq (h : Forall₂ (fun b b' => decode b'.header b'.payload = none ∨
      decode b'.header b'.payload = decode b.header b.payload) blocks blocks')
    (hsound : ∀ b' ∈ blocks', decode b'.header b'.payload ≠ none) :
    blocks'.map (fun b => decode b.header b.payload) = blocks.map fun b => decode b.header b.payload := by
  induction h with
  | nil => rfl
  | @cons b b' blocks blocks' hhead htail ih =>
    rw [map_cons, map_cons, hhead.resolve_left (hsound b' mem_cons_self),
      ih fun x hx => hsound x (mem_cons_of_mem b' hx)]

/-- A source whose blocks decode to what the blocks of the record do, or not at all. -/
theorem failsOrDelivers_of_decode {m : MemoryChunkSource}
    (hm : m.failed = false) (harea : m.blockArea = blocks'.flatMap StoredBlock.bytes)
    (hlength : m.blockArea.length = m.blockAreaLen) (haligned : ∀ b ∈ blocks', b.Aligned)
    (hnonempty : ∀ b ∈ blocks', decode b.header b.payload ≠ some [])
    (h : Forall₂ (fun b b' => decode b'.header b'.payload = none ∨
      decode b'.header b'.payload = decode b.header b.payload) blocks blocks')
    (hplain : Plaintexts decode blocks bytes) : m.FailsOrDelivers decode bytes := by
  intro requests q hended
  have hserve := (progress_serveAll hm harea hlength haligned hnonempty
    requests).serve hm hlength haligned hnonempty q rfl
  rw [or_iff_not_imp_left, Bool.not_eq_true]
  intro hok
  obtain ⟨hsound, plains, hplains, hflat⟩ := hserve.2 hended hok
  obtain ⟨-, plains', hplains', rfl⟩ := hplain
  have hmap := map_decode_eq h fun b' hb' => (hsound b' hb').decoded
  have heq : plains = plains' := map_injective_iff.mpr (Option.some_injective Bytes)
    (hplains.symm.trans (hmap.trans hplains'))
  rw [← hflat, heq]

variable {blocks : List StoredBlock} {header : ObjectHeader} {data : Bytes}
  (hfits : header.Fits) (hlens : header.blockCompLens = blocks.map fun b => b.header.compSize)
  (hlength : data.length = (blocks.flatMap StoredBlock.bytes).length + (header.serializeTrailer c).length)
include hlength

/-- A trailer that is accepted is the one that was written. -/
theorem trailer_of_accepted (hunforged : Unforged c blocks (header.serializeTrailer c) data)
    {accepted : ObjectHeader} {trailerLen : ℕ}
    (hread : deserializeTrailer c data = some (accepted, trailerLen)) :
    ∃ area, data = area ++ header.serializeTrailer c ∧
      area.length = (blocks.flatMap StoredBlock.bytes).length := by
  obtain ⟨front, body, crc, hdata, hbody, hwidth, hsum, -⟩ :=
    deserializeTrailer_eq_some hread
  obtain ⟨area, harea⟩ := hunforged.trailer front body crc hdata (by omega) hwidth hsum
  refine ⟨area, harea.symm, ?_⟩
  rw [← harea, length_append] at hlength
  omega

include hfits hlens

/-- **A changed record.**  If nothing that was changed carries a matching checksum and, where there is a
compressor, the headers still say how long the plaintexts are, a reader sees a failure or gets exactly the
plaintexts of the record. -/
theorem failsOrDelivers_of_unforged (haligned : ∀ b ∈ blocks, b.Aligned)
    (hcrc : ∀ b ∈ blocks, b.header.crc = c.dataChecksum b.payload)
    (hnonempty : ∀ b ∈ blocks,
      decodeBlock c header.compressionType b.header b.payload ≠ some [])
    (hplain : Plaintexts (decodeBlock c header.compressionType) blocks bytes)
    (hunforged : Unforged c blocks (header.serializeTrailer c) data)
    (hkept : c.compressor header.compressionType ≠ none → LengthsKept blocks data) :
    (parseTrailer c data).FailsOrDelivers (decodeBlock c (parseTrailer c data).compressionType) bytes := by
  by_cases hm : (parseTrailer c data).failed = true
  · exact failsOrDelivers_of_failed hm _ _
  -- the trailer was accepted, so it is the old one, and the table has fixed the stored lengths
  have htrailer : 0 < (header.serializeTrailer c).length := by
    rw [serializeTrailer, length_append, length_toLE]
    omega
  have hne : data ≠ [] := by
    rintro rfl
    rw [length_nil] at hlength
    omega
  cases hread : deserializeTrailer c data with
  | none =>
    rw [parseTrailer, if_neg hne, hread] at hm
    exact absurd rfl hm
  | some read =>
    obtain ⟨area, rfl, harea⟩ := trailer_of_accepted hlength hunforged hread
    have hcut := cutLike_append blocks harea (header.serializeTrailer c)
    obtain ⟨-, hblocks⟩ := hunforged
    rw [LengthsKept, hcut] at hkept
    rw [hcut] at hblocks
    rw [parseTrailer_append c hfits area] at hm ⊢
    have haccepted : reconcile area (blocks.map fun b => b.header.compSize) 0 =
        none := by
      rw [← hlens]
      simpa [failed] using hm
    have hcomp := compSize_of_reconcile blocks harea [] haligned haccepted
    have hunc : Forall₂ (fun b b' => c.compressor header.compressionType ≠ none →
        b'.header.uncSize = b.header.uncSize) blocks (cutLike blocks area) := by
      by_cases hnone : c.compressor header.compressionType = none
      · exact hcomp.imp fun _ _ _ h => absurd hnone h
      · exact (hkept hnone).imp fun _ _ h _ => h
    have hsame := forall₂_and (forall₂_and hblocks hunc) (forall₂_and hcomp (payload_cutLike blocks harea))
    have hdecode : Forall₂ (fun b b' =>
        decodeBlock c header.compressionType b'.header b'.payload = none ∨
        decodeBlock c header.compressionType b'.header b'.payload =
          decodeBlock c header.compressionType b.header b.payload) blocks (cutLike blocks area) :=
      ((forall₂_and_left _ _).mpr ⟨hcrc, hsame⟩).imp fun b b' h =>
        decodeBlock_of_unforged h.1 h.2.1.1 h.2.1.2 h.2.2.1
    have haligned' : ∀ b' ∈ cutLike blocks area, b'.Aligned := by
      intro b' hb'
      obtain ⟨b, hb, -, hcompSize, hpayload⟩ := exists_of_forall₂ hsame hb'
      have hold := haligned b hb
      exact ⟨uncSize_cutLike_lt blocks area hb', by rw [hcompSize, hold.compSize, hpayload],
        hpayload ▸ hold.payload⟩
    have hnonempty' : ∀ b' ∈ cutLike blocks area,
        decodeBlock c header.compressionType b'.header b'.payload ≠ some [] := by
      intro b' hb'
      obtain ⟨b, hb, hnone | heq⟩ := exists_of_forall₂ hdecode hb'
      · rw [hnone]
        exact (Option.some_ne_none []).symm
      · rw [heq]
        exact hnonempty b hb
    exact failsOrDelivers_of_decode (by simpa using hm)
      (take_left.trans (flatMap_cutLike blocks harea).symm) (by simp [blockArea])
      haligned' hnonempty' hdecode hplain

end Changed

/-! ### Records of a writer -/

namespace FlyStream

variable {c : Codecs} {f : FlyStream} {calls : List WriteCall}

def storedBlocks (c : Codecs) (f : FlyStream) (calls : List WriteCall) : List StoredBlock :=
  (f.pipeline c calls).blocks.map (f.stored c)

def trailer (c : Codecs) (f : FlyStream) (calls : List WriteCall) : Bytes :=
  (f.header c (f.pipeline c calls)).serializeTrailer c

/-- **A changed record fails or reads as it was written.**  For any record that itself makes the round
trip: if nothing that was changed carries a matching checksum and, where blocks are compressed, the headers
still say how long the plaintexts are, a reader that comes to the end sees a failure, or has got exactly the
bytes that were written. -/
theorem changed_record_fails_or_delivers (hchunk : 0 < f.chunkSize) (hname : f.pyName.length < 2 ^ 16)
    (hcount : (f.pipeline c calls).blocks.length < 2 ^ 30) (hround : f.RoundTrip c calls)
    {data : Bytes} (hlength : data.length = (f.finishWrite c calls).length)
    (hunforged : Unforged c (storedBlocks c f calls) (trailer c f calls) data)
    (hkept : c.compressor (f.effectiveCompressionType c (f.pipeline c calls)) ≠ none →
      LengthsKept (storedBlocks c f calls) data) :
    (parseTrailer c data).FailsOrDelivers
      (decodeBlock c (parseTrailer c data).compressionType) (writtenBytes calls) := by
  have haligned : ∀ b ∈ (f.pipeline c calls).blocks, (f.stored c b).Aligned := fun b hb =>
    (hround.restorable hchunk hname hcount b hb).aligned
  have hplain := (plaintexts_iff hchunk hcount haligned).mpr (hround.restorable hchunk hname hcount)
  refine failsOrDelivers_of_unforged (fits_header hchunk hname hcount) ?_ ?_ ?_ ?_ ?_ hplain hunforged hkept
  · show (f.pipeline c calls).blockCompLens = _
    rw [(f.describes_pipeline c hchunk calls).1.lens, map_map]
    rfl
  · rw [hlength, finishWrite, length_append, emitted_eq hchunk]
  · exact forall_mem_map.mpr haligned
  · exact forall_mem_map.mpr fun b _ => rfl
  · exact forall_mem_map.mpr fun b hb => decode_stored_ne_nil hchunk hcount hb

/-- One byte, stored raw. -/
def oneByte : FlyStream := ⟨8, .none, 4, []⟩

/-- Eight zeros, stored as one byte. -/
def eightZeros : FlyStream := ⟨8, .zstd, 4, [79]⟩

/-- The stored byte of the block is changed, and its checksum is not. -/
theorem changed_record_fails_or_delivers_oneByte : (parseTrailer zeroCodecs
      ((oneByte.finishWrite zeroCodecs [.write [1]]).set 16 2)).FailsOrDelivers
      (decodeBlock zeroCodecs (parseTrailer zeroCodecs
        ((oneByte.finishWrite zeroCodecs [.write [1]]).set 16 2)).compressionType) [1] := by
  have hround : oneByte.RoundTrip zeroCodecs [.write [1]] :=
    roundTrip_of_restorable (by decide) (by decide) (by decide) (by decide)
  refine @changed_record_fails_or_delivers zeroCodecs oneByte [.write [1]] (by decide) (by decide)
    (by decide) hround _ (length_set ..) ⟨fun _ _ _ _ _ _ _ => ⟨?_, ?_⟩, ?_⟩ ?_
  · exact ((oneByte.finishWrite zeroCodecs [.write [1]]).set 16 2).take 17
  · decide
  · exact .cons (by decide) .nil
  · exact fun h => absurd rfl h

/-- **Changes that go unnoticed.**  Eight zeros are stored as one byte; the header is made to say that the
plaintext has one byte as well, nothing else is changed, and a reader is given the stored byte.  And a
stored byte is changed together with the checksum of its block. -/
theorem changed_record_unnoticed :
    (∃ data, (eightZeros.finishWrite zeroCodecs [.write (replicate 8 0)]).head? = some 8 ∧
      data = 1 :: (eightZeros.finishWrite zeroCodecs [.write (replicate 8 0)]).tail ∧
      ¬(parseTrailer zeroCodecs data).FailsOrDelivers
        (decodeBlock zeroCodecs (parseTrailer zeroCodecs data).compressionType)
        (replicate 8 0)) ∧
    ∃ data, data = ((oneByte.finishWrite zeroCodecs [.write [1]]).set 8 2).set 16 2 ∧
      ¬(parseTrailer zeroCodecs data).FailsOrDelivers
        (decodeBlock zeroCodecs (parseTrailer zeroCodecs data).compressionType)
        [1] := by
  refine ⟨⟨_, by decide +kernel, rfl, fun h => ?_⟩, _, rfl, fun h => ?_⟩
  all_goals exact absurd (h [] (.read 9) (by decide +kernel)) (by decide +kernel)

end FlyStream

end Fly.Storage
