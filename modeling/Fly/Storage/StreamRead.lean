import Fly.Lib.Run
import Fly.Storage.Pipeline

/-!
# Reading an object as a stream

`DecompressingStreamBuf` is the stream a reader sees: it pulls blocks from a source, up to the length of
the block area, and hands out their plaintext.  A failed block sets `checksum_failed`; a reader asks for
it once it has seen the end of the stream.

* `DecompressingStreamBuf`, `refill`, `xsgetn`, `underflow` — the stream;
* `Request`, `serve`, `serveAll` — what a reader can do, and what it gets;
* `Complete` — what was delivered is the plaintext of the blocks that fill the whole area;
* `Reached`, `Truncates` — the states of the pipeline between two blocks, and those of them from which
  the stream ends early without a failure: nothing comes where a header is due and the mark is not set,
  or a block without plaintext comes before the end of the area;
* `ends_failed_or_complete_iff` — every end of the stream is a failure or complete **iff** no state that
  is reached truncates.
-/

namespace Fly.Storage

open Fly.Lib List

structure DecompressingStreamBuf (σ : Type*) (area : ℕ) where
  pipeline : ReadPipeline (Window σ area)
  checksumFailed : Bool
  /-- what is left of the current block -/
  plain : Bytes := []

namespace DecompressingStreamBuf

variable {σ : Type*} {area : ℕ}

/-- The pipeline before its first block. -/
def firstBlock (area : ℕ) (s : σ) : ReadPipeline (Window σ area) := { source := ⟨s, [], Nat.zero_le area⟩ }

/-- A new stream; `failed` is what the source says about itself. -/
def start (area : ℕ) (s : σ) (failed : Bool) : DecompressingStreamBuf σ area where
  pipeline := firstBlock area s
  checksumFailed := failed

variable (S : Source σ) (decode : BlockHeader → Bytes → Option Bytes) (b : DecompressingStreamBuf σ area)

/-- The answer is whether there is something to hand out. -/
def refill : Bool × DecompressingStreamBuf σ area :=
  if b.checksumFailed then (false, b)
  else if area ≤ b.pipeline.source.taken.length then (false, b)
  else
    match nextBlock (S.bounded area) decode b.pipeline with
    | (none, p) => (false, { b with pipeline := p, checksumFailed := b.checksumFailed || p.failed })
    | (some plain, p) => (decide (plain ≠ []), { b with pipeline := p, plain })

def underflow : Option UInt8 × DecompressingStreamBuf σ area :=
  if b.plain = [] then
    let (ok, b) := b.refill S decode
    (if ok then b.plain.head? else none, b)
  else (b.plain.head?, b)

/-- Hand out up to `n` bytes; `copied` are handed out already. -/
def xsgetnFuel : ℕ → ℕ → Bytes → DecompressingStreamBuf σ area → Bytes × DecompressingStreamBuf σ area
  | 0, _, copied, b => (copied, b)
  | fuel + 1, n, copied, b =>
    if copied.length < n then
      if b.plain = [] then
        let (ok, b) := b.refill S decode
        if ok then
          xsgetnFuel fuel n (copied ++ b.plain.take (n - copied.length))
            { b with plain := b.plain.drop (n - copied.length) }
        else (copied, b)
      else
        xsgetnFuel fuel n (copied ++ b.plain.take (n - copied.length))
          { b with plain := b.plain.drop (n - copied.length) }
    else (copied, b)

/-- Every round hands out at least one byte, so `n` rounds are enough. -/
def xsgetn (n : ℕ) (b : DecompressingStreamBuf σ area) : Bytes × DecompressingStreamBuf σ area :=
  xsgetnFuel S decode n n [] b

/-! ### Readers -/

/-- Read a number of bytes, or look at the next one. -/
inductive Request where
  | read (n : ℕ)
  | peek

/-- What a request hands out, and whether the reader saw the end of the stream. -/
structure Served (σ : Type*) (area : ℕ) where
  out : Bytes
  ended : Bool
  buf : DecompressingStreamBuf σ area

def serve : Request → Served σ area
  | .read n =>
    let (out, b) := xsgetn S decode n b
    ⟨out, decide (out.length < n), b⟩
  | .peek =>
    let (next, b) := b.underflow S decode
    ⟨[], next.isNone, b⟩

/-- All that was handed out, and the stream after it. -/
def serveAll (requests : List Request) : Bytes × DecompressingStreamBuf σ area :=
  requests.foldl (fun (out, b) request => (out ++ (serve S decode b request).out,
    (serve S decode b request).buf)) ([], b)

/-- The blocks that were decoded fill the whole area, and what was delivered is their plaintext. -/
def Complete (delivered : Bytes) (b : DecompressingStreamBuf σ area) : Prop :=
  b.pipeline.source.taken.length = area ∧
    ∃ plains, Decoded decode b.pipeline.source.taken plains ∧ plains.flatten = delivered

/-! ### Where the stream can end -/

/-- The states of the pipeline before its first block and between blocks with plaintext. -/
inductive Reached (s : σ) : ReadPipeline (Window σ area) → Prop
  | first : Reached s (firstBlock area s)
  | next {p p' : ReadPipeline (Window σ area)} {plain : Bytes} (before : Reached s p)
      (inside : p.source.taken.length < area)
      (block : nextBlock (S.bounded area) decode p = (some plain, p')) (hplain : plain ≠ []) :
      Reached s p'

/-- From here the stream ends before the area does, and nothing says so. -/
def Truncates (p : ReadPipeline (Window σ area)) : Prop :=
  p.source.taken.length < area ∧ ((p.hdrPartial = false ∧ (S.bounded area).piece p.source 16 = []) ∨
      ∃ p', nextBlock (S.bounded area) decode p = (some [], p') ∧ p'.source.taken.length < area)

/-- No state that is reached from `s` truncates. -/
def NeverTruncates (area : ℕ) (s : σ) : Prop :=
  ∀ p : ReadPipeline (Window σ area), Reached S decode s p → ¬Truncates S decode p

variable {S decode b}

variable {p p' : ReadPipeline (Window σ area)} {s : σ}
  {delivered plain : Bytes} {b' : DecompressingStreamBuf σ area}
  {I E : Bytes → DecompressingStreamBuf σ area → Prop} {ok : Bool}

theorem nextBlock_ready (h : nextBlock (S.bounded area) decode p = (some plain, p')) :
    p.failed = false ∧ p.eof = false := by
  unfold nextBlock at h
  split at h
  · cases h
  · next hready => simpa using hready

theorem Reached.ready (h : Reached S decode s p) : p.failed = false ∧ p.eof = false := by
  cases h with
  | first => exact ⟨rfl, rfl⟩
  | next before inside block hplain =>
    obtain ⟨hfailed, heof⟩ := nextBlock_ready block
    rcases nextBlock_spec (S.takes_bounded area) hfailed heof block with
      ⟨plain, wire, -, hf, he, -⟩ | ⟨hnone, -⟩ | ⟨hnone, -⟩
    · exact ⟨hf, he⟩
    · cases hnone
    · cases hnone

/-! ### What every stream keeps -/

/-- While nothing has failed, what was delivered and what is left of the current block are the plaintext
of the blocks pulled so far. -/
def Tracks (decode : BlockHeader → Bytes → Option Bytes) (delivered : Bytes)
    (b : DecompressingStreamBuf σ area) : Prop :=
  b.checksumFailed = false → b.pipeline.failed = false ∧
    ∃ plains, Decoded decode b.pipeline.source.taken plains ∧ plains.flatten = delivered ++ b.plain

theorem Tracks.start (s : σ) (failed : Bool) : Tracks decode [] (start area s failed) :=
  fun _ => ⟨rfl, [], Decoded.nil, rfl⟩

theorem Tracks.copy (h : Tracks decode delivered b) (n : ℕ) :
    Tracks decode (delivered ++ b.plain.take n) { b with plain := b.plain.drop n } := by
  intro hok
  obtain ⟨hfailed, plains, hdecoded, hflat⟩ := h hok
  refine ⟨hfailed, plains, hdecoded, ?_⟩
  rw [hflat, append_assoc, take_append_drop]

/-- What a refill does to the stream. -/
inductive Refilled (S : Source σ) (decode : BlockHeader → Bytes → Option Bytes)
    (b : DecompressingStreamBuf σ area) : Bool → DecompressingStreamBuf σ area → Prop
  /-- it had failed before -/
  | failed (before : b.checksumFailed = true) : Refilled S decode b false b
  /-- the area is used up -/
  | used (ok : b.checksumFailed = false) (full : b.pipeline.source.taken.length = area) :
      Refilled S decode b false b
  /-- no block -/
  | noBlock {p : ReadPipeline (Window σ area)} (ok : b.checksumFailed = false)
      (inside : b.pipeline.source.taken.length < area)
      (block : nextBlock (S.bounded area) decode b.pipeline = (none, p)) :
      Refilled S decode b false { b with pipeline := p, checksumFailed := b.checksumFailed || p.failed }
  /-- a block, perhaps an empty one -/
  | block {p : ReadPipeline (Window σ area)} {plain : Bytes} (ok : b.checksumFailed = false)
      (inside : b.pipeline.source.taken.length < area)
      (block : nextBlock (S.bounded area) decode b.pipeline = (some plain, p)) :
      Refilled S decode b (decide (plain ≠ [])) { b with pipeline := p, plain }

variable (S decode) in
theorem refill_cases (b : DecompressingStreamBuf σ area) :
    Refilled S decode b (b.refill S decode).1 (b.refill S decode).2 := by
  unfold refill
  by_cases hok : b.checksumFailed = true
  · rw [if_pos hok]
    exact .failed hok
  rw [if_neg hok]
  by_cases hfull : area ≤ b.pipeline.source.taken.length
  · rw [if_pos hfull]
    exact .used (by simpa using hok) (le_antisymm b.pipeline.source.length_taken hfull)
  rw [if_neg hfull]
  have hinside : b.pipeline.source.taken.length < area := by omega
  rcases hblock : nextBlock (S.bounded area) decode b.pipeline with ⟨_ | plain, p⟩
  · exact .noBlock (by simpa using hok) hinside hblock
  · exact .block (by simpa using hok) hinside hblock

theorem Refilled.plain_ne_nil (h : Refilled S decode b true b') : b'.plain ≠ [] := by
  generalize hok : true = ok at h
  cases h with
  | failed | used | noBlock => cases hok
  | block => exact of_decide_eq_true hok.symm

/-- A refill of an empty buffer keeps track. -/
theorem Tracks.refill
    (h : Tracks decode delivered b) (hplain : b.plain = []) (hrefill : Refilled S decode b ok b') :
    Tracks decode delivered b' := by
  cases hrefill with
  | failed before => exact h
  | used ok full => exact h
  | @noBlock p ok inside block =>
    intro hfailed
    rw [ok, Bool.false_or] at hfailed
    obtain ⟨hnotfailed, plains, hdecoded, hflat⟩ := h ok
    refine ⟨hfailed, plains, ?_, hflat⟩
    by_cases heof : b.pipeline.eof = true
    · -- the end was reported before: nothing is pulled
      have hsame : nextBlock (S.bounded area) decode b.pipeline = (none, b.pipeline) := by
        rw [nextBlock, if_pos (.inr heof)]
      rw [hsame] at block
      cases block
      exact hdecoded
    · rcases nextBlock_spec (S.takes_bounded area) hnotfailed (by simpa using heof) block with
        ⟨plain, wire, hsome, -⟩ | ⟨-, hfail⟩ | ⟨-, -, htaken, -⟩
      · cases hsome
      · rw [hfail] at hfailed
        cases hfailed
      · rw [htaken]
        exact hdecoded
  | @block p plain ok inside block =>
    intro _
    obtain ⟨hnotfailed, plains, hdecoded, hflat⟩ := h ok
    obtain ⟨-, heof⟩ := nextBlock_ready block
    rcases nextBlock_spec (S.takes_bounded area) hnotfailed heof block with
      ⟨_, wire, hsome, hf, -, htaken, hblock⟩ | ⟨hnone, -⟩ | ⟨hnone, -⟩
    · cases hsome
      refine ⟨hf, plains ++ [plain], ?_, ?_⟩
      · rw [htaken]
        exact hdecoded.concat hblock
      · rw [hplain, append_nil] at hflat
        rw [flatten_append, hflat]
        simp
    · cases hnone
    · cases hnone

/-! ### The loop of a read -/

section

variable (hcopy : ∀ d b n, I d b → I (d ++ b.plain.take n) { b with plain := b.plain.drop n })
  (hrefill : ∀ d b b' ok, I d b → b.plain = [] → Refilled S decode b ok b' →
    I d b' ∧ (ok = false → E d b'))
include hcopy hrefill

/-- **The loop rule.**  What copying and refilling keep holds after a read, and a read that falls short
has ended with a refill that gave nothing. -/
theorem xsgetnFuel_rule {d copied out : Bytes} {fuel n : ℕ} {b₁ : DecompressingStreamBuf σ area}
    (h : xsgetnFuel S decode fuel n copied b = (out, b₁)) (hI : I (d ++ copied) b)
    (hfuel : n ≤ copied.length + fuel) : I (d ++ out) b₁ ∧ (out.length < n → E (d ++ out) b₁) := by
  induction fuel generalizing copied b with
  | zero =>
    cases h
    exact ⟨hI, fun hlt => absurd hlt (by omega)⟩
  | succ fuel ih =>
    have hround : ∀ c : DecompressingStreamBuf σ area, I (d ++ copied) c → c.plain ≠ [] →
        copied.length < n →
        I (d ++ (copied ++ c.plain.take (n - copied.length)))
          { c with plain := c.plain.drop (n - copied.length) } ∧
        n ≤ (copied ++ c.plain.take (n - copied.length)).length + fuel := by
      intro c hc hne hlt
      have hpos := length_pos_iff.mpr hne
      refine ⟨by rw [← append_assoc]; exact hcopy _ _ _ hc, ?_⟩
      rw [length_append, length_take]
      omega
    rw [xsgetnFuel] at h
    by_cases hlt : copied.length < n
    · rw [if_pos hlt] at h
      by_cases hplain : b.plain = []
      · rw [if_pos hplain] at h
        have hcases := refill_cases S decode b
        rcases hr : b.refill S decode with ⟨ok, b'⟩
        rw [hr] at hcases h
        obtain ⟨hI', hE⟩ := hrefill _ _ _ _ hI hplain hcases
        cases ok with
        | false =>
          cases h
          exact ⟨hI', fun _ => hE rfl⟩
        | true =>
          obtain ⟨hnext, hfuel'⟩ := hround b' hI' hcases.plain_ne_nil hlt
          exact ih h hnext hfuel'
      · rw [if_neg hplain] at h
        obtain ⟨hnext, hfuel'⟩ := hround b hI hplain hlt
        exact ih h hnext hfuel'
    · rw [if_neg hlt] at h
      cases h
      exact ⟨hI, fun hshort => absurd hshort hlt⟩

/-- **The rule of a request.**  What copying and refilling keep holds after it, and if the reader sees the
end, then the last refill gave nothing. -/
theorem serve_rule {d : Bytes} (hI : I d b) (q : Request) {r : Served σ area}
    (hr : serve S decode b q = r) : I (d ++ r.out) r.buf ∧ (r.ended = true → E (d ++ r.out) r.buf) := by
  subst hr
  cases q with
  | read n =>
    have hloop := xsgetnFuel_rule hcopy hrefill (show xsgetnFuel S decode n n [] b = (_, _) from rfl)
      (by rw [append_nil]; exact hI) (Nat.le_add_left n _)
    exact ⟨hloop.1, fun hended => hloop.2 (of_decide_eq_true hended)⟩
  | peek =>
    show I (d ++ []) (b.underflow S decode).2 ∧
      ((b.underflow S decode).1.isNone = true → E (d ++ []) (b.underflow S decode).2)
    rw [append_nil, underflow]
    by_cases hplain : b.plain = []
    · rw [if_pos hplain]
      have hcases := refill_cases S decode b
      rcases hr : b.refill S decode with ⟨ok, b'⟩
      rw [hr] at hcases
      obtain ⟨hI', hE⟩ := hrefill d b b' ok hI hplain hcases
      refine ⟨hI', fun hended => ?_⟩
      cases ok with
      | false => exact hE rfl
      | true =>
        have hhead : b'.plain.head? = none := Option.isNone_iff_eq_none.mp hended
        exact absurd (head?_eq_none_iff.mp hhead) hcases.plain_ne_nil
    · rw [if_neg hplain]
      refine ⟨hI, fun hended => ?_⟩
      exact absurd (head?_eq_none_iff.mp (Option.isNone_iff_eq_none.mp hended)) hplain

end

theorem serveAll_concat (b : DecompressingStreamBuf σ area) (requests : List Request) (q : Request) :
    serveAll S decode b (requests ++ [q]) =
      ((serveAll S decode b requests).1 ++ (serve S decode (serveAll S decode b requests).2 q).out,
        (serve S decode (serveAll S decode b requests).2 q).buf) := by
  rw [serveAll, foldl_append]
  rfl

/-- **The rule of all requests.** -/
theorem serveAll_rule (hstart : I [] b)
    (hstep : ∀ d b, I d b → ∀ q, I (d ++ (serve S decode b q).out) (serve S decode b q).buf)
    (requests : List Request) :
    I (serveAll S decode b requests).1 (serveAll S decode b requests).2 := by
  induction requests using reverseRecOn with
  | nil => exact hstart
  | append_singleton requests q ih =>
    rw [serveAll_concat]
    exact hstep _ _ ih q

/-! ### Streams that never truncate -/

/-- The stream is between two blocks, inside one, or through with the area. -/
def Live (S : Source σ) (decode : BlockHeader → Bytes → Option Bytes) (s : σ)
    (b : DecompressingStreamBuf σ area) : Prop :=
  b.checksumFailed = false → Reached S decode s b.pipeline ∨ b.pipeline.source.taken.length = area

/-- The stream has ended, with a failure or at the end of the area. -/
def Over (b : DecompressingStreamBuf σ area) : Prop :=
  b.plain = [] ∧ (b.checksumFailed = true ∨ b.pipeline.source.taken.length = area)

theorem Live.refill (h : Live S decode s b) (hsafe : NeverTruncates S decode area s)
    (hplain : b.plain = []) (hrefill : Refilled S decode b ok b') :
    Live S decode s b' ∧ (ok = false → Over b') := by
  have hreached : b.checksumFailed = false → b.pipeline.source.taken.length < area →
      Reached S decode s b.pipeline := by
    intro hok hinside
    exact (h hok).resolve_right (by omega)
  cases hrefill with
  | failed before => exact ⟨h, fun _ => ⟨hplain, .inl before⟩⟩
  | used ok full => exact ⟨h, fun _ => ⟨hplain, .inr full⟩⟩
  | @noBlock p ok inside block =>
    have hr := hreached ok inside
    have hfailed : p.failed = true := by
      rcases nextBlock_spec (S.takes_bounded area) hr.ready.1 hr.ready.2 block with
        ⟨plain, wire, hsome, -⟩ | ⟨-, hfail⟩ | ⟨-, -, -, hmark, hpiece⟩
      · cases hsome
      · exact hfail
      · exact (hsafe _ hr ⟨inside, .inl ⟨hmark, hpiece⟩⟩).elim
    have hset : (b.checksumFailed || p.failed) = true := by rw [hfailed, Bool.or_true]
    exact ⟨fun hok => (Bool.false_ne_true (hok.symm.trans hset)).elim, fun _ => ⟨hplain, .inl hset⟩⟩
  | @block p plain ok inside block =>
    have hr := hreached ok inside
    by_cases hempty : plain = []
    · -- an empty block is the last one of the area
      subst hempty
      have hlast : p.source.taken.length = area := by
        by_contra hne
        have hlt : p.source.taken.length < area := lt_of_le_of_ne p.source.length_taken hne
        exact hsafe _ hr ⟨inside, .inr ⟨p, block, hlt⟩⟩
      exact ⟨fun _ => .inr hlast, fun _ => ⟨rfl, .inr hlast⟩⟩
    · refine ⟨fun _ => .inl (hr.next inside block hempty), fun hok => ?_⟩
      exact (hempty (by simpa using hok)).elim

/-- What holds of the stream and what it has delivered. -/
def Healthy (S : Source σ) (decode : BlockHeader → Bytes → Option Bytes) (s : σ) (delivered : Bytes)
    (b : DecompressingStreamBuf σ area) : Prop :=
  Tracks decode delivered b ∧ Live S decode s b

theorem Healthy.refill (h : Healthy S decode s delivered b) (hsafe : NeverTruncates S decode area s)
    (hplain : b.plain = []) (hrefill : Refilled S decode b ok b') :
    Healthy S decode s delivered b' ∧ (ok = false → Over b') :=
  have hlive := h.2.refill hsafe hplain hrefill
  ⟨⟨h.1.refill hplain hrefill, hlive.1⟩, hlive.2⟩

theorem Healthy.serve (h : Healthy S decode s delivered b)
    (hsafe : NeverTruncates S decode area s) (q : Request) {r : Served σ area}
    (hr : serve S decode b q = r) :
    Healthy S decode s (delivered ++ r.out) r.buf ∧ (r.ended = true → Over r.buf) :=
  serve_rule (I := Healthy S decode s) (E := fun _ c => Over c) (fun _ _ m hc => ⟨hc.1.copy m, hc.2⟩)
    (fun _ _ _ _ hc hplain hrefill => hc.refill hsafe hplain hrefill) h q hr

variable (area S decode) in
/-- A stream that failed at the start stays so. -/
theorem checksumFailed_serveAll (s : σ) (requests : List Request) :
    serveAll S decode (start area s true) requests = ([], start area s true) := by
  induction requests using reverseRecOn with
  | nil => rfl
  | append_singleton requests q ih =>
    rw [serveAll_concat, ih]
    cases q with
    | read n =>
      have hread : xsgetn S decode n (start area s true) = ([], start area s true) := by
        cases n with
        | zero => rfl
        | succ n => rfl
      rw [serve, hread]
      rfl
    | peek => rfl

/-! ### Streams that truncate -/

theorem refill_of_some (hinside : p.source.taken.length < area)
    (hblock : nextBlock (S.bounded area) decode p = (some plain, p')) :
    refill S decode ⟨p, false, []⟩ = (decide (plain ≠ []), ⟨p', false, plain⟩) := by
  unfold refill
  rw [if_neg Bool.false_ne_true, if_neg (Nat.not_le.mpr hinside)]
  rw [hblock]

/-- Every state that is reached can be reached by reading. -/
theorem exists_requests_of_reached (h : Reached S decode s p) :
    ∃ requests, (serveAll S decode (start area s false) requests).2 = ⟨p, false, []⟩ := by
  induction h with
  | first => exact ⟨[], rfl⟩
  | @next p p' plain before inside block hplain ih =>
    obtain ⟨requests, hrequests⟩ := ih
    refine ⟨requests ++ [.read plain.length], ?_⟩
    rw [serveAll_concat, hrequests]
    -- the read takes exactly this block
    have hrefill : refill S decode ⟨p, false, []⟩ = (true, ⟨p', false, plain⟩) := by
      rw [refill_of_some inside block, decide_eq_true hplain]
    obtain ⟨m, hm⟩ : ∃ m, plain.length = m + 1 :=
      ⟨plain.length - 1, by have := length_pos_iff.mpr hplain; omega⟩
    have hdone : ∀ fuel, xsgetnFuel S decode fuel plain.length plain ⟨p', false, []⟩ =
        (plain, ⟨p', false, []⟩) := by
      intro fuel
      cases fuel with
      | zero => rfl
      | succ fuel => rw [xsgetnFuel, if_neg (lt_irrefl _)]
    have hread : xsgetn S decode plain.length ⟨p, false, []⟩ = (plain, ⟨p', false, []⟩) := by
      rw [xsgetn]
      nth_rewrite 1 [hm]
      rw [xsgetnFuel, if_pos (by show 0 < plain.length; omega), if_pos rfl, hrefill]
      show xsgetnFuel S decode m plain.length ([] ++ plain.take (plain.length - 0))
        ⟨p', false, plain.drop (plain.length - 0)⟩ = _
      rw [Nat.sub_zero, take_length, drop_length, nil_append]
      exact hdone m
    show (xsgetn S decode plain.length ⟨p, false, []⟩).2 = _
    rw [hread]

/-- From a state that truncates, the next read sees the end, too early and without a failure. -/
theorem Truncates.read (hr : Reached S decode s p) (h : Truncates S decode p) :
    (serve S decode ⟨p, false, []⟩ (.read 1)).ended = true ∧
      (serve S decode ⟨p, false, []⟩ (.read 1)).buf.checksumFailed = false ∧
      (serve S decode ⟨p, false, []⟩ (.read 1)).buf.pipeline.source.taken.length < area := by
  obtain ⟨hinside, hcause⟩ := h
  have hrefill : ∃ p' : ReadPipeline (Window σ area), p'.source.taken.length < area ∧
      refill S decode ⟨p, false, []⟩ = (false, ⟨p', false, []⟩) := by
    rcases hcause with ⟨hmark, hpiece⟩ | ⟨p', hblock, hlt⟩
    · obtain ⟨p', hnone, hfailed, hsource⟩ :=
        nextBlock_of_piece_eq_nil decode hr.ready.1 hr.ready.2 hmark hpiece
      refine ⟨p', ?_, ?_⟩
      · rw [hsource, S.takes_bounded area p.source 16, hpiece, append_nil]
        exact hinside
      · rw [refill, if_neg Bool.false_ne_true, if_neg (Nat.not_le.mpr hinside), hnone]
        dsimp only
        rw [hfailed]
        rfl
    · exact ⟨p', hlt, refill_of_some hinside hblock⟩
  obtain ⟨p', hlt, hrefill⟩ := hrefill
  have hread : xsgetn S decode 1 ⟨p, false, []⟩ = ([], ⟨p', false, []⟩) := by
    rw [xsgetn, xsgetnFuel, if_pos (by decide), if_pos rfl, hrefill]
    rfl
  rw [serve, hread]
  exact ⟨rfl, rfl, hlt⟩

/-- **The end of the stream is a failure or complete, for all readers, exactly when no state that is
reached truncates** (or the source said from the start that it had failed).  For every source, checksum,
compressor and area length. -/
theorem ends_failed_or_complete_iff (S : Source σ) (c : Codecs) (type : CompressionType) (area : ℕ)
    (s : σ) (failed : Bool) :
    (∀ requests q, (serve S (decodeBlock c type)
        (serveAll S (decodeBlock c type) (start area s failed) requests).2 q).ended = true →
      (serveAll S (decodeBlock c type) (start area s failed) (requests ++ [q])).2.checksumFailed = true ∨
      Complete (decodeBlock c type)
        (serveAll S (decodeBlock c type) (start area s failed) (requests ++ [q])).1
        (serveAll S (decodeBlock c type) (start area s failed) (requests ++ [q])).2) ↔
    failed = true ∨ NeverTruncates S (decodeBlock c type) area s := by
  generalize decodeBlock c type = decode
  constructor
  · intro hall
    cases failed with
    | true => exact .inl rfl
    | false =>
      refine .inr fun p hr htruncates => ?_
      obtain ⟨requests, hrequests⟩ := exists_requests_of_reached hr
      obtain ⟨hended, hok, hshort⟩ := htruncates.read hr
      have hend := hall requests (.read 1)
      rw [serveAll_concat, hrequests] at hend
      rcases hend hended with hfail | ⟨hfull, -⟩
      · rw [hok] at hfail
        cases hfail
      · exact absurd hfull (Nat.ne_of_lt hshort)
  · intro hsafe requests q hended
    rcases hsafe with rfl | hsafe
    · rw [checksumFailed_serveAll]
      exact .inl rfl
    have hhealthy := serveAll_rule (I := Healthy S decode s) (b := start area s failed)
      ⟨Tracks.start s failed, fun _ => .inl Reached.first⟩ (fun _ _ h q => (h.serve hsafe q rfl).1) requests
    obtain ⟨htracks, hover⟩ := hhealthy.serve hsafe q rfl
    obtain ⟨hplain, hfail | hfull⟩ := hover hended
    · rw [serveAll_concat]
      exact .inl hfail
    rw [serveAll_concat]
    by_cases hfail : (serve S decode (serveAll S decode (start area s failed) requests).2
        q).buf.checksumFailed = true
    · exact .inl hfail
    · obtain ⟨-, plains, hdecoded, hflat⟩ := htracks.1 (by simpa using hfail)
      rw [hplain, append_nil] at hflat
      exact .inr ⟨hfull, plains, hdecoded, hflat⟩

/-- A source that hands out what it has and then fails. -/
def failing : Source Bytes where
  pull rest n := if rest = [] then (none, rest) else (some (rest.take n), rest.drop n)
  pull_length rest n := by
    split
    · exact Nat.zero_le n
    · exact length_take_le n rest

/-- An area of two blocks, of which the source has the first and then fails: the reader gets that one
block and the end of the stream, with no failure reported. -/
theorem failed_between_blocks_unreported :
    let decode := decodeBlock plainCodecs .none
    let served := serve failing decode
      (start 34 ((BlockHeader.mk 1 1 0).bytes ++ [7]) false) (.read 2)
    served.ended = true ∧ served.out = [7] ∧ served.buf.checksumFailed = false ∧
      ¬Complete decode served.out served.buf :=
  ⟨by decide, by decide, by decide, fun h => absurd h.1 (by decide)⟩

end DecompressingStreamBuf

end Fly.Storage
