import Fly.Agent.PeerFrames
import Fly.Lib.Run

/-!
# Receiving a record in chunks (`data_client_pool.cpp`)

`receive_chunked` puts a record together from frames that say where their bytes belong.  Frames whose
checksum does not match leave a hole; after the digest that ends the stream every hole is asked for once
more.  At the end the intervals that were filled must cover the record, and the digest must match if it
carries a checksum.

Offsets, lengths and their sums are 64-bit words, and the peer chooses the offset: a sum can wrap around.

* `readFrame` — one frame off the wire; `reads` — all frames of a byte sequence;
* `Rx`, `Rx.fill`, `Rx.step` — the receiver, frame by frame; `finish` — coverage and digest;
* `Rx.Traced` — what every frame keeps: the intervals are those of the payloads that were copied, each with a
  checksum that is absent or matches, and the memory holds them;
* `covers_of_coverage` — what the last test means;
* `sound_iff_no_wrap` — the reception is sound exactly if no frame wraps around;
* `wrapped_frame_copied` — one that does.
-/

namespace Fly.Network.ReceiveChunked

open Fly.Lib Fly.Storage Fly.Agent List UInt64 Nat

/-! ### Frames -/

/-- What is around the receiver: the checksum, the decoding of a digest, the allocator, and whether a request
for a hole can be sent. -/
structure Env where
  dataChecksum : Bytes → UInt64
  decodeDigest : Bytes → Option UInt64
  alloc : ℕ → Bool
  sendAll : UInt64 → UInt64 → Bool

/-- The outcomes of `read_frame`; `threw` is a failed allocation. -/
inductive FrameRead where
  | good (off : UInt64) (raw : Bytes) (crc : UInt64)
  | bad (off : UInt64) (raw : Bytes)
  | digest (rootCrc : UInt64)
  | lost
  | badHeader
  | threw
  deriving DecidableEq

def rawLenFromTotal (totalLen : ℕ) : ℕ := if totalLen > 21 then totalLen - 21 else 0

section Read

variable (E : Env) (total : UInt64)

def readChunk (totalLen : ℕ) (input : Bytes) : FrameRead × Bytes :=
  if input.length < 4 then (.lost, [])
  else if ofBE (input.take 4) ≠ 16 then (.lost, [])
  else if input.length < 20 then (.lost, [])
  else
    let off := .ofNat (ofBE ((input.drop 4).take 8))
    let crc := .ofNat (ofBE ((input.drop 12).take 8))
    let rawLen := rawLenFromTotal totalLen
    let payload := input.drop 20
    if rawLen = 0 ∨ off + .ofNat rawLen > total then (.lost, [])
    else if E.alloc rawLen = false then (.threw, [])
    else if payload.length < rawLen then (.lost, [])
    else
      let raw := payload.take rawLen
      let rest := payload.drop rawLen
      if crc ≠ 0 ∧ E.dataChecksum raw ≠ crc then (.bad off raw, rest) else (.good off raw crc, rest)

def readDigest (totalLen : ℕ) (input : Bytes) : FrameRead × Bytes :=
  if E.alloc (totalLen - 1) = false then (.threw, [])
  else if input.length < totalLen - 1 then (.lost, [])
  else
    match E.decodeDigest (input.take (totalLen - 1)) with
    | none => (.lost, [])
    | some root => (.digest root, input.drop (totalLen - 1))

/-- `read_frame`: what was read, and what is left. -/
def readFrame (input : Bytes) : FrameRead × Bytes :=
  if input.length < 9 then (.lost, [])
  else
    match parseFrameHeader input with
    | none => (.badHeader, [])
    | some totalLen =>
      if input.getD 8 0 = 63 then readChunk E total totalLen (input.drop 9)
      else if input.getD 8 0 = 65 then readDigest E totalLen (input.drop 9)
      else (.lost, [])

/-- The frames of a byte sequence; behind what cannot be read nothing is left, and the next read is lost. -/
def readsFuel : ℕ → Bytes → List FrameRead
  | 0, _ => []
  | fuel + 1, input => (readFrame E total input).1 :: readsFuel fuel (readFrame E total input).2

def reads (input : Bytes) : List FrameRead := readsFuel E total (input.length + 1) input

end Read

/-! ### The receiver -/

structure Span where
  off : UInt64
  len : UInt64
  deriving DecidableEq

/-- A payload that was copied into the record, with the checksum of its frame. -/
structure Copied where
  off : UInt64
  raw : Bytes
  crc : UInt64
  deriving DecidableEq

/-- The failures of `receive_chunked`, and an exception of the allocator that it does not catch. -/
inductive Failure where
  | invalidMeta
  | tooLarge
  | headerCheck
  | connectionLost
  | resendRequest
  | resentCorrupt
  | resendExchange
  | missingRange
  | digestMismatch
  | exception
  deriving DecidableEq

/-- Where the receiver is: in the stream, at a hole, through, or failed. -/
inductive Stage where
  | streaming
  | repairing (hole : Span) (todo : List Span)
  | through
  | failed (why : Failure)
  deriving DecidableEq

/-- `mem` is the memory from the start of the buffer on; an address below it is one that wraps around. -/
structure Rx where
  mem : UInt64 → UInt8
  filled : List Span
  holes : List Span
  rootCrc : UInt64
  stage : Stage
  copies : List Copied

def isFilled (filled : List Span) (off len : UInt64) : Bool :=
  filled.any fun s => decide (s.off ≤ off) && decide (off + len ≤ s.off + s.len)

namespace Rx

def start (E : Env) (total : UInt64) : Rx where
  mem _ := 0
  filled := []
  holes := []
  rootCrc := 0
  stage :=
    if total = 0 then .failed .invalidMeta
    else if E.alloc total.toNat = false then .failed .tooLarge
    else .streaming
  copies := []

/-- `memcpy` of a payload to an offset. -/
def copy (mem : UInt64 → UInt8) (off : UInt64) (raw : Bytes) (a : UInt64) : UInt8 :=
  if (a - off).toNat < raw.length then raw.getD (a - off).toNat 0 else mem a

/-- `fill`: a payload whose interval is filled already is not copied again. -/
def fill (r : Rx) (off : UInt64) (raw : Bytes) (crc : UInt64) : Rx :=
  if isFilled r.filled off (.ofNat raw.length) then r
  else
    { r with
      mem := copy r.mem off raw
      filled := r.filled ++ [⟨off, .ofNat raw.length⟩]
      copies := r.copies ++ [⟨off, raw, crc⟩] }

/-- Go on to the next hole that is still open, and ask for it. -/
def nextHole (E : Env) (r : Rx) : List Span → Stage
  | [] => .through
  | hole :: todo =>
    if isFilled r.filled hole.off hole.len then nextHole E r todo
    else if E.sendAll hole.off hole.len then .repairing hole todo
    else .failed .resendRequest

def step (E : Env) (r : Rx) (f : FrameRead) : Rx :=
  match r.stage with
  | .streaming =>
    match f with
    | .good off raw crc => r.fill off raw crc
    | .bad off raw => { r with holes := r.holes ++ [⟨off, .ofNat raw.length⟩] }
    | .digest root => { r with rootCrc := root, stage := nextHole E r r.holes }
    | .lost => { r with stage := .failed .connectionLost }
    | .badHeader => { r with stage := .failed .headerCheck }
    | .threw => { r with stage := .failed .exception }
  | .repairing hole todo =>
    match f with
    | .good off raw crc =>
      if off = hole.off then
        let r := r.fill off raw crc
        { r with stage := nextHole E r todo }
      else r
    | .bad off _ => if off = hole.off then { r with stage := .failed .resentCorrupt } else r
    -- a digest is read into the same variable, and otherwise ignored
    | .digest root => { r with rootCrc := root }
    | .lost | .badHeader => { r with stage := .failed .resendExchange }
    | .threw => { r with stage := .failed .exception }
  | .through => r
  | .failed _ => r

/-- The intervals in order: `expect` is where the next one may start at the latest. -/
def coverage : UInt64 → List Span → Option UInt64
  | expect, [] => some expect
  | expect, s :: rest => if s.off > expect then none else coverage (max expect (s.off + s.len)) rest

def result (r : Rx) (total : UInt64) : Bytes :=
  (List.range total.toNat).map fun p => r.mem (UInt64.ofNat p)

/-- What is tested at the end. -/
def finish (E : Env) (r : Rx) (total : UInt64) : Except Failure Bytes :=
  match r.stage with
  | .failed why => .error why
  | .streaming => .error .connectionLost
  | .repairing _ _ => .error .resendExchange
  | .through =>
    match coverage 0 (r.filled.mergeSort fun a b => decide (a.off ≤ b.off)) with
    | none => .error .missingRange
    | some expect =>
      if expect < total then .error .missingRange
      else if r.rootCrc ≠ 0 ∧ E.dataChecksum (r.result total) ≠ r.rootCrc then .error .digestMismatch
      else .ok (r.result total)

end Rx

open Rx

/-- The receiver after all that the peer sends. -/
def session (E : Env) (total : UInt64) (input : Bytes) : Rx :=
  (reads E total input).foldl (Rx.step E) (start E total)

def receiveChunked (E : Env) (total : UInt64) (input : Bytes) : Except Failure Bytes :=
  (session E total input).finish E total

/-! ### What a frame does -/

/-- The receiver would fill in a good frame at this offset. -/
def Rx.Takes (r : Rx) (off : UInt64) : Prop :=
  r.stage = .streaming ∨ ∃ hole todo, r.stage = .repairing hole todo ∧ hole.off = off

section Step

variable {E : Env} {total : UInt64} {r : Rx}

theorem fill_cases (off : UInt64) (raw : Bytes) (crc : UInt64) :
    (isFilled r.filled off (UInt64.ofNat raw.length) = true ∧ r.fill off raw crc = r) ∨
      (isFilled r.filled off (UInt64.ofNat raw.length) = false ∧ r.fill off raw crc =
        { r with
          mem := copy r.mem off raw
          filled := r.filled ++ [⟨off, UInt64.ofNat raw.length⟩]
          copies := r.copies ++ [⟨off, raw, crc⟩] }) := by
  unfold fill
  cases hfilled : isFilled r.filled off (UInt64.ofNat raw.length) with
  | true => exact .inl ⟨rfl, if_pos rfl⟩
  | false => exact .inr ⟨rfl, if_neg (by decide)⟩

/-- **What a frame can do**: its payload is copied, or the memory stays as it is; and a good frame that the
receiver waits for is left out only if its interval is filled. -/
theorem step_cases (f : FrameRead) : (∃ off raw crc, f = .good off raw crc ∧ r.Takes off ∧
      isFilled r.filled off (.ofNat raw.length) = false ∧
      (r.step E f).mem = copy r.mem off raw ∧
      (r.step E f).filled = r.filled ++ [⟨off, .ofNat raw.length⟩] ∧
      (r.step E f).copies = r.copies ++ [⟨off, raw, crc⟩]) ∨
    ((r.step E f).mem = r.mem ∧ (r.step E f).filled = r.filled ∧ (r.step E f).copies = r.copies ∧
      ∀ off raw crc, f = .good off raw crc → r.Takes off →
        isFilled r.filled off (.ofNat raw.length) = true) := by
  cases hstage : r.stage with
  | through | failed why =>
    have hsame : r.step E f = r := by simp only [Rx.step, hstage]
    rw [hsame]
    refine .inr ⟨rfl, rfl, rfl, fun off raw crc _ htakes => ?_⟩
    rcases htakes with h | ⟨hole, todo, h, -⟩ <;> rw [hstage] at h <;> cases h
  | streaming =>
    simp only [Rx.step, hstage]
    cases f with
    | good off raw crc =>
      dsimp only
      rcases fill_cases (r := r) off raw crc with ⟨hfilled, heq⟩ | ⟨hfilled, heq⟩
      · rw [heq]
        refine .inr ⟨rfl, rfl, rfl, ?_⟩
        rintro _ _ _ ⟨⟩ -
        exact hfilled
      · rw [heq]
        exact .inl ⟨off, raw, crc, rfl, .inl hstage, hfilled, rfl, rfl, rfl⟩
    | _ => exact .inr ⟨rfl, rfl, rfl, nofun⟩
  | repairing hole todo =>
    simp only [Rx.step, hstage]
    cases f with
    | good off raw crc =>
      dsimp only
      by_cases hoff : off = hole.off
      · rw [if_pos hoff]
        have htakes : r.Takes off := Or.inr ⟨hole, todo, hstage, hoff.symm⟩
        rcases fill_cases (r := r) off raw crc with ⟨hfilled, heq⟩ | ⟨hfilled, heq⟩
        · rw [heq]
          refine .inr ⟨rfl, rfl, rfl, ?_⟩
          rintro _ _ _ ⟨⟩ -
          exact hfilled
        · rw [heq]
          exact .inl ⟨off, raw, crc, rfl, htakes, hfilled, rfl, rfl, rfl⟩
      · rw [if_neg hoff]
        refine .inr ⟨rfl, rfl, rfl, ?_⟩
        rintro _ _ _ ⟨⟩ htakes
        rcases htakes with h | ⟨hole', todo', h, hoff'⟩
        · rw [hstage] at h
          cases h
        · rw [hstage] at h
          cases h
          exact absurd hoff'.symm hoff
    | bad off raw =>
      dsimp only
      split <;> exact .inr ⟨rfl, rfl, rfl, nofun⟩
    | _ => exact .inr ⟨rfl, rfl, rfl, nofun⟩

end Step

/-! ### What is known of a good frame -/

section Reads

variable {E : Env} {total off crc : UInt64} {input rest raw : Bytes}

variable (E total) in
/-- What `read_frame` has tested of a payload. -/
structure Accepted (off : UInt64) (raw : Bytes) (crc : UInt64) : Prop where
  length_lt : raw.length < 2 ^ 48
  end_le : (off.toNat + raw.length) % 2 ^ 64 ≤ total.toNat
  checked : crc = 0 ∨ E.dataChecksum raw = crc

theorem parseFrameHeader_lt {p8 : Bytes} {len : ℕ} (h : parseFrameHeader p8 = some len) : len < 2 ^ 48 := by
  unfold parseFrameHeader at h
  dsimp only at h
  split at h
  · cases h
  split at h
  · cases h
  · cases h
    rw [and_mask]
    exact mod_lt _ (by decide)

theorem accepted_of_readChunk {totalLen : ℕ} (hlen : totalLen < 2 ^ 48)
    (h : readChunk E total totalLen input = (.good off raw crc, rest)) :
    Accepted E total off raw crc := by
  unfold readChunk at h
  dsimp only at h
  split at h
  · cases h
  split at h
  · cases h
  split at h
  · cases h
  split at h
  · cases h
  rename_i hrange
  split at h
  · cases h
  split at h
  · cases h
  split at h
  · cases h
  rename_i hcrc
  have hraw : rawLenFromTotal totalLen < 2 ^ 48 := by
    unfold rawLenFromTotal
    split <;> omega
  cases h
  have hlength : (((input.drop 20).take (rawLenFromTotal totalLen))).length =
      rawLenFromTotal totalLen := by
    rw [length_take]
    omega
  refine ⟨by rw [hlength]; exact hraw, ?_, ?_⟩
  · have hnat : (UInt64.ofNat (rawLenFromTotal totalLen)).toNat = rawLenFromTotal totalLen := by
      rw [UInt64.toNat_ofNat', mod_eq_of_lt (by omega)]
    have hle := (not_or.mp hrange).2
    rw [gt_iff_lt, UInt64.not_lt, UInt64.le_iff_toNat_le, UInt64.toNat_add, hnat] at hle
    rw [hlength]
    exact hle
  · by_cases hzero : UInt64.ofNat (ofBE ((input.drop 12).take 8)) = 0
    · exact .inl hzero
    · right
      by_contra hne
      exact hcrc ⟨hzero, hne⟩

theorem accepted_of_readFrame
    (h : readFrame E total input = (.good off raw crc, rest)) : Accepted E total off raw crc := by
  unfold readFrame at h
  split at h
  · cases h
  split at h
  · cases h
  rename_i totalLen hparse
  split at h
  · exact accepted_of_readChunk (parseFrameHeader_lt hparse) h
  split at h
  · unfold readDigest at h
    split at h
    · cases h
    · split at h
      · cases h
      · split at h <;> cases h
  · cases h

theorem accepted_of_mem
    (h : FrameRead.good off raw crc ∈ reads E total input) : Accepted E total off raw crc := by
  unfold reads at h
  generalize input.length + 1 = fuel at h
  induction fuel generalizing input with
  | zero => cases h
  | succ fuel ih =>
    rw [readsFuel, mem_cons] at h
    rcases h with h | h
    · exact accepted_of_readFrame (show readFrame E total input =
        (.good off raw crc, (readFrame E total input).2) from Prod.ext h.symm rfl)
    · exact ih h

end Reads

/-! ### The memory holds what was copied -/

/-- The position lies in the payload. -/
def Copied.Covers (c : Copied) (p : ℕ) : Prop := c.off.toNat ≤ p ∧ p < c.off.toNat + c.raw.length

section Trace

variable {E : Env} {total : UInt64} {input : Bytes} {r : Rx} {f : FrameRead}

/-- Every payload that was copied lies inside the record. -/
def Rx.Inside (total : UInt64) (r : Rx) : Prop := ∀ c ∈ r.copies, c.off.toNat + c.raw.length ≤ total.toNat

variable (E total) in
/-- The intervals are those of the payloads, each payload was accepted, and as long as all of them lie inside
the record the memory holds, at every position, the byte of a payload that lies there. -/
structure Rx.Traced (r : Rx) : Prop where
  filled_eq : r.filled = r.copies.map fun c => ⟨c.off, .ofNat c.raw.length⟩
  accepted : ∀ c ∈ r.copies, Accepted E total c.off c.raw c.crc
  mem_eq : r.Inside total → ∀ p, (∃ c ∈ r.copies, c.Covers p) →
    ∃ c ∈ r.copies, c.Covers p ∧ r.mem (.ofNat p) = c.raw.getD (p - c.off.toNat) 0

/-- Where a payload inside the record puts its bytes. -/
theorem copy_apply {mem : UInt64 → UInt8} {off : UInt64} {raw : Bytes}
    (hin : off.toNat + raw.length ≤ total.toNat) {p : ℕ} (hp : p < total.toNat) :
    copy mem off raw (UInt64.ofNat p) =
      if off.toNat ≤ p ∧ p < off.toNat + raw.length then raw.getD (p - off.toNat) 0
      else mem (.ofNat p) := by
  have htotal := total.toNat_lt
  have hnat : (UInt64.ofNat p).toNat = p := by
    rw [UInt64.toNat_ofNat', mod_eq_of_lt (by omega)]
  have hsub : (.ofNat p - off).toNat = (2 ^ 64 - off.toNat + p) % 2 ^ 64 := by
    rw [UInt64.toNat_sub, hnat]
  unfold copy
  rw [hsub]
  by_cases hle : off.toNat ≤ p
  · have hdiff : (2 ^ 64 - off.toNat + p) % 2 ^ 64 = p - off.toNat := by omega
    rw [hdiff]
    by_cases hlt : p < off.toNat + raw.length
    · rw [if_pos (by omega), if_pos ⟨hle, hlt⟩]
    · rw [if_neg (by omega), if_neg (fun h => hlt h.2)]
  · -- the address lies in front of the payload, so its distance from it wraps around
    rw [if_neg (by omega), if_neg (fun h => hle h.1)]

theorem traced_start : (start E total).Traced E total where
  filled_eq := rfl
  accepted _ hc := absurd hc not_mem_nil
  mem_eq _ _ h := by
    obtain ⟨c, hc, -⟩ := h
    exact absurd hc not_mem_nil

theorem traced_step (h : r.Traced E total)
    (hf : ∀ off raw crc, f = .good off raw crc → Accepted E total off raw crc) :
    (r.step E f).Traced E total := by
  rcases step_cases (E := E) (r := r) f with
    ⟨off, raw, crc, rfl, -, -, hmem, hfilled, hcopies⟩ | ⟨hmem, hfilled, hcopies, -⟩
  · refine ⟨?_, ?_, ?_⟩
    · rw [hfilled, hcopies, h.filled_eq, map_append]
      rfl
    · intro c hc
      rw [hcopies, mem_append, mem_singleton] at hc
      rcases hc with hc | rfl
      · exact h.accepted c hc
      · exact hf off raw crc rfl
    · intro hinside p hcovered
      have hold : r.Inside total := by
        intro c hc
        exact hinside c (by rw [hcopies]; exact mem_append_left _ hc)
      have hnew : off.toNat + raw.length ≤ total.toNat :=
        hinside ⟨off, raw, crc⟩ (by rw [hcopies]; simp)
      have hp : p < total.toNat := by
        obtain ⟨c, hc, hcover⟩ := hcovered
        have hle := hinside c hc
        have hlt := hcover.2
        omega
      rw [hmem, copy_apply hnew hp, hcopies]
      by_cases hhere : off.toNat ≤ p ∧ p < off.toNat + raw.length
      · rw [if_pos hhere]
        exact ⟨⟨off, raw, crc⟩, by simp, hhere, rfl⟩
      rw [if_neg hhere]
      obtain ⟨c, hc, hcover⟩ := hcovered
      rw [hcopies, mem_append, mem_singleton] at hc
      rcases hc with hc | rfl
      · obtain ⟨c', hc', hcover', heq⟩ := h.mem_eq hold p ⟨c, hc, hcover⟩
        exact ⟨c', mem_append_left _ hc', hcover', heq⟩
      · exact absurd hcover hhere
  · refine ⟨?_, ?_, ?_⟩
    · rw [hfilled, hcopies]
      exact h.filled_eq
    · rw [hcopies]
      exact h.accepted
    · unfold Rx.Inside
      rw [hcopies, hmem]
      exact h.mem_eq

theorem traced_foldl {fs : List FrameRead}
    (hfs : ∀ off raw crc, FrameRead.good off raw crc ∈ fs → Accepted E total off raw crc) :
    (fs.foldl (Rx.step E) (start E total)).Traced E total := by
  induction fs using List.reverseRecOn with
  | nil => exact traced_start
  | append_singleton fs f ih =>
    rw [foldl_append]
    refine traced_step (ih fun off raw crc h => hfs off raw crc (mem_append_left _ h)) ?_
    rintro off raw crc rfl
    exact hfs off raw crc (by simp)

/-! ### Exactly the frames that wrap around do harm -/

/-- The condition on a frame: one that the receiver waits for does not wrap around, unless its interval
counts as filled. -/
def NoWrap (r : Rx) : FrameRead → Prop
  | .good off raw _ => r.Takes off →
      isFilled r.filled off (ofNat raw.length) = true ∨ off.toNat + raw.length < 2 ^ 64
  | _ => True

theorem inside_step_iff (htraced : (r.step E f).Traced E total) (hinside : r.Inside total) :
    (r.step E f).Inside total ↔ NoWrap r f := by
  have htotal := total.toNat_lt
  rcases step_cases (E := E) (r := r) f with
    ⟨off, raw, crc, rfl, htakes, hnot, -, -, hcopies⟩ | ⟨-, -, hcopies, hskip⟩
  · have hnew : (⟨off, raw, crc⟩ : Copied) ∈ (r.step E (.good off raw crc)).copies := by
      rw [hcopies]
      simp
    have hend := (htraced.accepted _ hnew).end_le
    constructor
    · intro h _
      have hle := h _ hnew
      dsimp only at hle
      exact .inr (by omega)
    · intro h c hc
      have hlt := (h htakes).resolve_left (by rw [hnot]; decide)
      rw [hcopies, mem_append, mem_singleton] at hc
      rcases hc with hc | rfl
      · exact hinside c hc
      · rw [mod_eq_of_lt hlt] at hend
        exact hend
  · refine iff_of_true ?_ ?_
    · unfold Rx.Inside
      rw [hcopies]
      exact hinside
    · cases f with
      | good off raw crc => exact fun htakes => .inl (hskip off raw crc rfl htakes)
      | _ => trivial

/-- Nothing that was copied is forgotten. -/
theorem inside_of_foldl (fs : List FrameRead) (h : (fs.foldl (Rx.step E) r).Inside total) :
    r.Inside total := by
  induction fs generalizing r with
  | nil => exact h
  | cons f fs ih =>
    have hnext := ih h
    intro c hc
    refine hnext c ?_
    rcases step_cases (E := E) (r := r) f with ⟨_, _, _, _, _, _, _, _, hcopies⟩ | ⟨_, _, hcopies, _⟩
    · rw [hcopies]
      exact mem_append_left _ hc
    · rw [hcopies]
      exact hc

theorem inside_session_iff : (session E total input).Inside total ↔
      ∀ pre f post, reads E total input = pre ++ f :: post →
        NoWrap (pre.foldl (Rx.step E) (start E total)) f := by
  have hall : (∀ pre, pre <+: reads E total input → (pre.foldl (Rx.step E) (start E total)).Inside total) ↔
      ∀ pre f post, reads E total input = pre ++ f :: post →
        NoWrap (pre.foldl (Rx.step E) (start E total)) f := by
    refine foldl_good_iff_safe (I := fun r => r.Traced E total) (fun pre hpre => ?_) ?_
      (fun r f _ htraced hinside => inside_step_iff htraced hinside)
    · exact traced_foldl fun off raw crc h => accepted_of_mem (hpre.subset h)
    · exact fun c hc => absurd hc not_mem_nil
  rw [← hall]
  constructor
  · rintro h pre ⟨post, hsplit⟩
    refine inside_of_foldl (E := E) post ?_
    rw [← foldl_append, hsplit]
    exact h
  · exact fun h => h _ prefix_rfl

end Trace

/-! ### The test at the end -/

section Finish

variable {E : Env} {total : UInt64} {r : Rx}

/-- Intervals that pass the test cover everything up to where it ends. -/
theorem covers_of_coverage {spans : List Span} {expect last : UInt64}
    (hspans : ∀ s ∈ spans, s.off.toNat + s.len.toNat < 2 ^ 64) (h : coverage expect spans = some last) {p : ℕ}
    (hfrom : expect.toNat ≤ p) (hto : p < last.toNat) :
    ∃ s ∈ spans, s.off.toNat ≤ p ∧ p < s.off.toNat + s.len.toNat := by
  induction spans generalizing expect with
  | nil =>
    cases h
    omega
  | cons s spans ih =>
    rw [coverage] at h
    split at h
    · cases h
    rename_i hoff
    rw [gt_iff_lt, UInt64.not_lt, UInt64.le_iff_toNat_le] at hoff
    have hend : (s.off + s.len).toNat = s.off.toNat + s.len.toNat := by
      rw [UInt64.toNat_add, mod_eq_of_lt (hspans s mem_cons_self)]
    by_cases hhere : p < s.off.toNat + s.len.toNat
    · exact ⟨s, mem_cons_self, by omega, hhere⟩
    have hmax : (max expect (s.off + s.len)).toNat ≤ p := by
      show (if expect ≤ s.off + s.len then s.off + s.len else expect).toNat ≤ p
      split
      · omega
      · exact hfrom
    obtain ⟨t, ht, hcover⟩ := ih (fun t ht => hspans t (mem_cons_of_mem s ht)) h hmax
    exact ⟨t, mem_cons_of_mem s ht, hcover⟩

variable (E total r) in
/-- The result: every position was written by a payload whose checksum was absent or matched, and the whole
matches the checksum of the digest if it carries one. -/
structure Whole (result : Bytes) : Prop where
  length_eq : result.length = total.toNat
  written : ∀ p < total.toNat, ∃ c ∈ r.copies, c.Covers p ∧ (c.crc = 0 ∨ E.dataChecksum c.raw = c.crc) ∧
    result.getD p 0 = c.raw.getD (p - c.off.toNat) 0
  digest : r.rootCrc ≠ 0 → E.dataChecksum result = r.rootCrc

theorem whole_of_finish (h : r.Traced E total) (hinside : r.Inside total) {result : Bytes}
    (hfinish : r.finish E total = .ok result) : Whole E total r result := by
  unfold finish at hfinish
  split at hfinish
  · cases hfinish
  · cases hfinish
  · cases hfinish
  split at hfinish
  · cases hfinish
  rename_i last hcoverage
  split at hfinish
  · cases hfinish
  rename_i hlast
  split at hfinish
  · cases hfinish
  rename_i hdigest
  cases hfinish
  have htotal := total.toNat_lt
  rw [UInt64.not_lt, UInt64.le_iff_toNat_le] at hlast
  have hspan : ∀ c ∈ r.copies, (ofNat c.raw.length).toNat = c.raw.length := by
    intro c hc
    have hlt := (h.accepted c hc).length_lt
    rw [toNat_ofNat', mod_eq_of_lt (by omega)]
  have hmem : ∀ s ∈ r.filled.mergeSort fun a b => decide (a.off ≤ b.off),
      ∃ c ∈ r.copies, s.off = c.off ∧ s.len.toNat = c.raw.length := by
    intro s hs
    rw [mem_mergeSort, h.filled_eq, mem_map] at hs
    obtain ⟨c, hc, rfl⟩ := hs
    exact ⟨c, hc, rfl, hspan c hc⟩
  refine ⟨by rw [result, length_map, length_range], fun p hp => ?_, fun hroot => ?_⟩
  · obtain ⟨s, hs, hcover⟩ := covers_of_coverage (p := p) (fun s hs => by
      obtain ⟨c, hc, hoff, hlen⟩ := hmem s hs
      have hle := hinside c hc
      rw [hoff, hlen]
      omega) hcoverage (zero_le p) (by omega)
    obtain ⟨c, hc, hoff, hlen⟩ := hmem s hs
    rw [hoff, hlen] at hcover
    obtain ⟨c', hc', hcover', heq⟩ := h.mem_eq hinside p ⟨c, hc, hcover⟩
    refine ⟨c', hc', hcover', (h.accepted c' hc').checked, ?_⟩
    rw [← heq, result, getD_eq_getElem?_getD, getElem?_map, getElem?_range hp]
    rfl
  · by_contra hne
    exact hdigest ⟨hroot, hne⟩

end Finish

variable {E : Env} {total : UInt64} {input : Bytes}

variable (E total input) in
/-- Reception is sound: no payload is copied that does not lie inside the record, and a result that is
returned was written everywhere by payloads that were checked, and matches the digest. -/
structure Sound : Prop where
  inside : (session E total input).Inside total
  whole : ∀ result, receiveChunked E total input = .ok result → Whole E total (session E total input) result

/-- **Reception is sound exactly if no frame wraps around**: for every record length and all that a peer can
send, if no good frame that the receiver waits for, and whose interval does not count as filled, has an
offset and a length whose sum does not fit into 64 bits, and only then. -/
theorem sound_iff_no_wrap : Sound E total input ↔ ∀ pre f post, reads E total input = pre ++ f :: post →
        NoWrap (pre.foldl (Rx.step E) (start E total)) f := by
  rw [← inside_session_iff]
  constructor
  · exact Sound.inside
  · intro hinside
    refine ⟨hinside, fun result hresult => ?_⟩
    exact whole_of_finish (traced_foldl fun off raw crc h => accepted_of_mem h) hinside hresult

/-- A checksum that is the length, digests of eight bytes, and an allocator for small buffers. -/
def sampleEnv : Env where
  dataChecksum bs := ofNat bs.length
  decodeDigest bs := if bs.length = 8 then some (ofNat (ofBE bs)) else none
  alloc n := decide (n < 1000)
  sendAll _ _ := true

/-- A frame with ten bytes for an offset five bytes below the end of the 64-bit words. -/
def wrappedFrame : Bytes := chunkHeader 0xFFFFFFFFFFFFFFFB 10 ++ [1, 2, 3, 4, 5, 6, 7, 8, 9, 10]

/-- **A frame that wraps around is copied**: its sum counts as five, so it passes the test against a record of
ten bytes, and the copy begins five bytes in front of the buffer. -/
theorem wrapped_frame_copied :
    (session sampleEnv 10 wrappedFrame).copies = [⟨0xFFFFFFFFFFFFFFFB, [1, 2, 3, 4, 5, 6, 7, 8, 9, 10], 0⟩] ∧
      ¬Sound sampleEnv 10 wrappedFrame := by
  have hcopies : (session sampleEnv 10 wrappedFrame).copies =
      [⟨0xFFFFFFFFFFFFFFFB, [1, 2, 3, 4, 5, 6, 7, 8, 9, 10], 0⟩] := by decide +kernel
  refine ⟨hcopies, fun h => ?_⟩
  have hle := h.inside _ (by exact mem_cons_self)
  exact absurd hle (by decide +kernel)

end Fly.Network.ReceiveChunked
