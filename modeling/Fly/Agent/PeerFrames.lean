import Fly.Lib.Frames
import Fly.Storage.Pipeline

/-!
# Frames between peers (`message_protocol.h`, `peer_rpc_server.cpp`)

Workers talk to each other over connections of their own.  A message is a frame: eight bytes of header,
which hold the length of the rest and a check of that length, a byte for the type, and the fields.

* `makeFrameHeader`, `parseFrameHeader` — the header; `parseFrameHeader_make` — it is read back;
* `PeerFrame` — the frames of a peer connection, with `PeerFrame.body` and `PeerFrame.bytes`;
* `StreamMessages` — how the two messages around a stream are serialised, and that they are read back;
* `peerFraming` — the frames as a frame format; `sized_of_lt` — the header is right up to 48 bits of length.
-/

namespace Fly.Agent

open Fly.Lib Fly.Storage List Nat

/-! ### The header -/

def frameCheckMagic : ℕ := 0xF17E

def frameLenMask : ℕ := 2 ^ 48 - 1

def fold16 (len : ℕ) : ℕ := (len ^^^ (len >>> 16) ^^^ (len >>> 32)) &&& 0xFFFF

/-- `total_len` counts the type byte and all that follows it. -/
def makeFrameHeader (totalLen : ℕ) : ℕ :=
  (frameCheckMagic ^^^ fold16 totalLen) <<< 48 ||| (totalLen &&& frameLenMask)

def parseFrameHeader (p8 : Bytes) : Option ℕ :=
  let hdr := ofBE (p8.take 8)
  let len := hdr &&& frameLenMask
  let check := hdr >>> 48
  if len = 0 then none
  else if check ≠ (frameCheckMagic ^^^ fold16 len) &&& 0xFFFF then none
  else some len

/-- `get_total_size`: `0` for a header that is not valid. -/
def getTotalSize (buffer : Bytes) : ℕ :=
  if buffer.length < 8 then 0 else (parseFrameHeader buffer).getD 0

theorem and_mask (n : ℕ) : n &&& frameLenMask = n % 2 ^ 48 := and_two_pow_sub_one_eq_mod n 48

theorem and_low (n : ℕ) : n &&& 0xFFFF = n % 2 ^ 16 := and_two_pow_sub_one_eq_mod n 16

theorem check_lt (len : ℕ) : frameCheckMagic ^^^ fold16 len < 2 ^ 16 := by
  refine xor_lt_two_pow (by decide) ?_
  rw [fold16, and_low]
  exact mod_lt _ (by decide)

/-- The two fields of the header lie side by side. -/
theorem makeFrameHeader_eq (len : ℕ) :
    makeFrameHeader len = (frameCheckMagic ^^^ fold16 len) * 2 ^ 48 + len % 2 ^ 48 := by
  have hlow : len % 2 ^ 48 < 2 ^ 48 := mod_lt _ (by decide)
  rw [makeFrameHeader, and_mask, ← shiftLeft_add_eq_or_of_lt hlow, shiftLeft_eq]

/-- **A header is read back**, whatever follows it. -/
theorem parseFrameHeader_make {len : ℕ} (hpos : 0 < len) (hlen : len < 2 ^ 48) (rest : Bytes) :
    parseFrameHeader (toBE 8 (makeFrameHeader len) ++ rest) = some len := by
  have hcheck := check_lt len
  have hread : ofBE ((toBE 8 (makeFrameHeader len) ++ rest).take 8) = makeFrameHeader len := by
    rw [take_left' (length_toBE _ _), ofBE_toBE_of_lt (by rw [makeFrameHeader_eq]; omega)]
  have hlow : makeFrameHeader len &&& frameLenMask = len := by
    rw [and_mask, makeFrameHeader_eq]
    omega
  have hhigh : makeFrameHeader len >>> 48 = frameCheckMagic ^^^ fold16 len := by
    rw [shiftRight_eq_div_pow, makeFrameHeader_eq]
    omega
  have hsame : (frameCheckMagic ^^^ fold16 len) &&& 0xFFFF = frameCheckMagic ^^^ fold16 len := by
    rw [and_low, mod_eq_of_lt hcheck]
  unfold parseFrameHeader
  dsimp only
  rw [hread, hlow, hhigh, hsame, if_neg (by omega), if_neg (not_not_intro rfl)]

/-! ### The messages -/

inductive PeerRpcWireStatus where
  | ok
  | notifyFailure
  | respondFailure
  | bye
  | notReady
  deriving DecidableEq

def PeerRpcWireStatus.code : PeerRpcWireStatus → UInt8
  | .ok => 0
  | .notifyFailure => 1
  | .respondFailure => 2
  | .bye => 3
  | .notReady => 4

inductive PeerStreamDirection where
  | request
  | response
  deriving DecidableEq

structure PeerStreamStart where
  rpcId : UInt64
  direction : PeerStreamDirection
  compressionType : CompressionType
  deriving DecidableEq

/-- What the sender has counted, for the receiver to compare. -/
structure PeerStreamEnd where
  rpcId : UInt64
  totalUncompressed : UInt64
  chunkCount : UInt32
  consumed : UInt64
  deriving DecidableEq

/-- The serialisation of the two messages of a stream: a message is read back, and is not as long as the
header of a frame allows. -/
structure StreamMessages where
  encodeStart : PeerStreamStart → Bytes
  decodeStart : Bytes → Option PeerStreamStart
  encodeEnd : PeerStreamEnd → Bytes
  decodeEnd : Bytes → Option PeerStreamEnd
  decode_encodeStart : ∀ m, decodeStart (encodeStart m) = some m
  decode_encodeEnd : ∀ m, decodeEnd (encodeEnd m) = some m
  length_encodeStart : ∀ m, (encodeStart m).length < 2 ^ 32
  length_encodeEnd : ∀ m, (encodeEnd m).length < 2 ^ 32

def PeerStreamDirection.code : PeerStreamDirection → ℕ
  | .request => 0
  | .response => 1

/-- The messages with their fields side by side. -/
def packedMessages : StreamMessages where
  encodeStart m :=
    pack [(8, m.rpcId.toNat), (1, m.direction.code), (1, m.compressionType.ctorIdx)]
  decodeStart data :=
    match unpack [8, 1, 1] data with
    | [rpcId, direction, type] =>
      some ⟨.ofNat rpcId, if direction = 0 then .request else .response,
        ([.none, .lz4, .zlib, .zstd] : List CompressionType).getD type .none⟩
    | _ => none
  encodeEnd m :=
    pack [(8, m.rpcId.toNat), (8, m.totalUncompressed.toNat), (4, m.chunkCount.toNat), (8, m.consumed.toNat)]
  decodeEnd data :=
    match unpack [8, 8, 4, 8] data with
    | [rpcId, total, chunks, consumed] => some ⟨.ofNat rpcId, .ofNat total, .ofNat chunks, .ofNat consumed⟩
    | _ => none
  decode_encodeStart m := by
    obtain ⟨rpcId, direction, type⟩ := m
    have hread := unpack_pack [(8, rpcId.toNat), (1, direction.code), (1, type.ctorIdx)] (by
      have hrpc := rpcId.toNat_lt
      simp only [List.forall_mem_cons]
      refine ⟨hrpc, ?_, ?_, by simp⟩
      · cases direction <;> decide
      · cases type <;> decide) []
    rw [List.append_nil] at hread
    simp only [List.map_cons, List.map_nil] at hread
    rw [hread]
    dsimp only
    rw [UInt64.ofNat_toNat]
    cases direction <;> cases type <;> rfl
  decode_encodeEnd m := by
    have hread := unpack_pack [(8, m.rpcId.toNat), (8, m.totalUncompressed.toNat),
      (4, m.chunkCount.toNat), (8, m.consumed.toNat)] (by
        simp only [List.forall_mem_cons]
        exact ⟨m.rpcId.toNat_lt, m.totalUncompressed.toNat_lt, m.chunkCount.toNat_lt,
          m.consumed.toNat_lt, by simp⟩) []
    rw [List.append_nil] at hread
    simp only [List.map_cons, List.map_nil] at hread
    rw [hread]
    simp
  length_encodeStart m := by simp [length_pack]
  length_encodeEnd m := by simp [length_pack]

inductive PeerFrame where
  | request (rpcId srcWorkerId : UInt64) (payload : Bytes)
  | response (rpcId : UInt64) (status : PeerRpcWireStatus) (payload : Bytes)
  | streamStart (m : PeerStreamStart)
  | dataChunk (offset : UInt64) (raw : Bytes)
  | streamEnd (m : PeerStreamEnd)
  deriving DecidableEq

def be64 (n : UInt64) : Bytes := toBE 8 n.toNat

/-- The small fields of a chunk: their length, the offset, and a checksum that is not computed. -/
def chunkFields (offset : UInt64) : Bytes := toBE 4 16 ++ be64 offset ++ be64 0

theorem length_chunkFields (offset : UInt64) : (chunkFields offset).length = 20 := by
  simp only [chunkFields, be64, length_append, length_toBE]

/-- `ChunkFrameProtocol::encode_header`: all of a chunk but its raw bytes. -/
def chunkHeader (offset : UInt64) (rawLen : ℕ) : Bytes :=
  toBE 8 (makeFrameHeader (1 + 4 + 16 + rawLen)) ++ 63 :: chunkFields offset

namespace PeerFrame

variable (M : StreamMessages) (f : PeerFrame)

def body : PeerFrame → Bytes
  | request rpcId srcWorkerId payload => 50 :: (be64 rpcId ++ be64 srcWorkerId ++ payload)
  | response rpcId status payload => 51 :: (be64 rpcId ++ status.code :: payload)
  | dataChunk offset raw => 63 :: (chunkFields offset ++ raw)
  | streamStart m => 66 :: M.encodeStart m
  | streamEnd m => 67 :: M.encodeEnd m

def header : Bytes := toBE 8 (makeFrameHeader (f.body M).length)

def bytes : Bytes := f.header M ++ f.body M

variable {M}

theorem body_ne_nil : f.body M ≠ [] := by
  cases f <;> exact cons_ne_nil _ _

theorem length_header : (f.header M).length = 8 := length_toBE 8 _

theorem length_bytes : (f.bytes M).length = 8 + (f.body M).length := by
  rw [bytes, length_append, length_header]

/-- A chunk is its header and its raw bytes. -/
theorem bytes_dataChunk (offset : UInt64) (raw : Bytes) :
    (dataChunk offset raw).bytes M = chunkHeader offset raw.length ++ raw := by
  have hlength : ((dataChunk offset raw).body M).length = 1 + 4 + 16 + raw.length := by
    rw [body, length_cons, length_append, length_chunkFields]
    omega
  rw [bytes, header, hlength, chunkHeader, append_assoc]
  rfl

end PeerFrame

/-! ### The frame format -/

/-- The frames of a connection, read by the length in the header. -/
def peerFraming (M : StreamMessages) : Framing PeerFrame where
  headerSize := 8
  headerSize_pos := eight_pos
  header := PeerFrame.header M
  body := PeerFrame.body M
  bodySize h := (parseFrameHeader h).getD 0
  length_header := PeerFrame.length_header

/-- The header tells the length of a frame that is shorter than `2 ^ 48`. -/
theorem sized_of_lt {M : StreamMessages} {f : PeerFrame} (h : (f.body M).length < 2 ^ 48) :
    (peerFraming M).Sized f := by
  have hpos : 0 < (f.body M).length := length_pos_iff.mpr f.body_ne_nil
  have hparse := parseFrameHeader_make hpos h []
  rw [append_nil] at hparse
  show (parseFrameHeader (f.header M)).getD 0 = (f.body M).length
  rw [PeerFrame.header, hparse, Option.getD_some]

end Fly.Agent
