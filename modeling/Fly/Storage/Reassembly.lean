import Fly.Storage.ByteQueue
import Fly.Storage.NetworkSource

/-!
# A record is put together again

What the receiving thread of `Fly.Storage.NetworkSource` hands on, when some blocks come damaged and are
sent again.

* `Piece`, `Tiles` — the stretch of the record between what was handed on and what has arrived, in pieces;
  some of them are still missing;
* `Holds` — the tables of the thread are those of the pieces; `Waiting` — and the first piece is missing;
  `Waiting.arrive`, `Waiting.lose`, `Waiting.repair` — what the three kinds of events do to it;
* `Transmission` — a record on its way: how it is cut, what is damaged, and what comes when it is sent again;
* `recvLoop_arrivals` — the thread pushes the record and ends healthy if everything that was sent again is
  intact, and pushes a front part of it and ends with a failure otherwise;
* `reassembled` — so `pull` hands out the record or fails, under every timing of the two threads.
-/

namespace Fly.Storage

open Fly.Lib List BlockHeader NetworkChunkSource AList ByteQueue Delivery Nat Prod Table

/-! ### Pieces -/

structure Piece where
  off : ℕ
  bytes : Bytes
  /-- it came damaged at first -/
  damaged : Bool
  here : Bool

/-- The pieces follow each other in the record, from `a` to `b`. -/
def Tiles (record : Bytes) : ℕ → List Piece → ℕ → Prop
  | a, [], b => a = b
  | a, p :: ps, b =>
    p.off = a ∧ p.bytes ≠ [] ∧ p.bytes <+: record.drop a ∧ Tiles record (a + p.bytes.length) ps b

namespace Tiles

variable {record : Bytes} {a b : ℕ} {p q : Piece} {ps : List Piece}

theorem le (h : Tiles record a ps b) : a ≤ b := by
  induction ps generalizing a with
  | nil => exact Nat.le_of_eq h
  | cons p ps ih =>
    have htail := ih h.2.2.2
    omega

theorem mem (h : Tiles record a ps b) (hp : p ∈ ps) : a ≤ p.off ∧ p.off < b := by
  induction ps generalizing a with
  | nil => cases hp
  | cons q ps ih =>
    have hpos := length_pos_iff.mpr h.2.1
    have hle := le h.2.2.2
    rcases mem_cons.mp hp with rfl | hp
    · have hoff := h.1
      omega
    · have htail := ih h.2.2.2 hp
      omega

theorem lt_of_mem_tail (h : Tiles record a (p :: ps) b) (hq : q ∈ ps) : a < q.off := by
  have hpos := length_pos_iff.mpr h.2.1
  have hmem := mem h.2.2.2 hq
  omega

/-- A piece is known by its offset. -/
theorem eq_of_off_eq (h : Tiles record a ps b) (hp : p ∈ ps) (hq : q ∈ ps) (hoff : p.off = q.off) :
    p = q := by
  induction ps generalizing a with
  | nil => cases hp
  | cons r ps ih =>
    have hfirst := h.1
    rcases mem_cons.mp hp with hp | hp <;> rcases mem_cons.mp hq with hq | hq
    · rw [hp, hq]
    · have hlt := h.lt_of_mem_tail hq
      rw [hp] at hoff
      omega
    · have hlt := h.lt_of_mem_tail hp
      rw [hq] at hoff
      omega
    · exact ih h.2.2.2 hp hq

theorem concat (h : Tiles record a ps b) (hoff : p.off = b) (hne : p.bytes ≠ [])
    (hbytes : p.bytes <+: record.drop b) : Tiles record a (ps ++ [p]) (b + p.bytes.length) := by
  induction ps generalizing a with
  | nil =>
    have hab : a = b := h
    subst hab
    exact ⟨hoff, hne, hbytes, rfl⟩
  | cons q ps ih => exact ⟨h.1, h.2.1, h.2.2.1, ih h.2.2.2⟩

/-- Only the place and the bytes of a piece matter. -/
theorem replace {front : List Piece} (h : Tiles record a (front ++ p :: ps) b)
    (hoff : q.off = p.off) (hbytes : q.bytes = p.bytes) : Tiles record a (front ++ q :: ps) b := by
  induction front generalizing a with
  | nil =>
    refine ⟨hoff.trans h.1, ?_⟩
    rw [hbytes]
    exact h.2
  | cons r front ih => exact ⟨h.1, h.2.1, h.2.2.1, ih h.2.2.2⟩

end Tiles

/-- The pieces that are not here, with their places. -/
def missing (ps : List Piece) : List (ℕ × Bytes) :=
  (ps.filter fun p => !p.here).map fun p => (p.off, p.bytes)

theorem missing_append (ps qs : List Piece) : missing (ps ++ qs) = missing ps ++ missing qs := by
  rw [missing, filter_append, map_append]
  rfl

theorem missing_dropWhile (ps : List Piece) : missing (ps.dropWhile Piece.here) = missing ps := by
  induction ps with
  | nil => rfl
  | cons p ps ih =>
    by_cases hhere : p.here = true
    · rw [dropWhile_cons_of_pos hhere, ih]
      simp [missing, hhere]
    · rw [dropWhile_cons_of_neg hhere]

theorem mem_missing {ps : List Piece} {m : ℕ × Bytes} :
    m ∈ missing ps ↔ ∃ p ∈ ps, p.here = false ∧ p.off = m.1 ∧ p.bytes = m.2 := by
  simp [missing, Prod.ext_iff, and_assoc]

/-! ### The tables of the thread -/

/-- What was handed on is the record up to `nextOff`; the tables hold the pieces from there to `at`. -/
structure Holds (record : Bytes) (front : ℕ) (ps : List Piece) (d : Delivery) : Prop where
  running : d.outcome = none
  pushed : d.pushed.flatten = record.take d.nextOff
  nonempty : ∀ b ∈ d.pushed, b ≠ []
  received : d.received = d.nextOff
  tiles : Tiles record d.nextOff ps front
  pending : ∀ o data, d.pending.lookup o = some data ↔ ∃ p ∈ ps, p.off = o ∧ p.bytes = data ∧ p.here = true
  holes : ∀ o, (d.holeLen.lookup o).isSome = true ↔ ∃ p ∈ ps, p.off = o ∧ p.damaged = true
  damaged : ∀ p ∈ ps, p.here = false → p.damaged = true
  resent : ∀ p ∈ ps, p.damaged = true → p.off ∈ d.resentOffsets
  fresh : ∀ o ∈ d.resentOffsets, o < front

variable {fuel n offset : ℕ} {gap : ℕ × Bytes} {bs : List (Bytes × Bytes)}

namespace Holds

variable {record bytes : Bytes} {front : ℕ} {p : Piece} {ps : List Piece} {d : Delivery}

theorem pushBlock_eq (h : d.outcome = none) (data : Bytes) :
    d.pushBlock data = { d with pushed := d.pushed ++ [data] } :=
  if_neg (by rw [h]; exact Bool.false_ne_true)

/-- The state after the first pending piece was handed on. -/
theorem tail (h : Holds record front (p :: ps) d) :
    Holds record front ps (({ d with
      holeLen := d.holeLen.erase d.nextOff
      received := d.received + p.bytes.length
      nextOff := d.nextOff + p.bytes.length
      pending := d.pending.erase d.nextOff } : Delivery).pushBlock p.bytes) := by
  obtain ⟨hoff, hne, ⟨rest, hrest⟩, htiles⟩ := h.tiles
  have hbehind : ∀ (Q : Piece → Prop) (o : ℕ),
      (o ≠ d.nextOff ∧ ∃ q ∈ p :: ps, q.off = o ∧ Q q) ↔ ∃ q ∈ ps, q.off = o ∧ Q q := by
    intro Q o
    constructor
    · rintro ⟨ho, q, hq, hqoff, hQ⟩
      rcases mem_cons.mp hq with rfl | hq
      · exact absurd (hqoff.symm.trans hoff) ho
      · exact ⟨q, hq, hqoff, hQ⟩
    · rintro ⟨q, hq, rfl, hQ⟩
      exact ⟨(h.tiles.lt_of_mem_tail hq).ne', q, mem_cons_of_mem p hq, rfl, hQ⟩
  rw [pushBlock_eq (by exact h.running)]
  refine ⟨h.running, ?_, ?_, ?_, htiles, fun o data => ?_, fun o => ?_, ?_, ?_, h.fresh⟩
  · rw [flatten_append, h.pushed, take_add, ← hrest, take_left]
    simp
  · exact forall_mem_append.mpr ⟨h.nonempty, forall_mem_singleton.mpr hne⟩
  · rw [h.received]
  · rw [lookup_erase_eq_some, h.pending]
    exact hbehind _ o
  · rw [lookup_isSome, mem_erase, ← lookup_isSome, h.holes]
    exact hbehind _ o
  · exact fun q hq => h.damaged q (mem_cons_of_mem p hq)
  · exact fun q hq => h.resent q (mem_cons_of_mem p hq)

theorem lookup_nextOff_cons (h : Holds record front (p :: ps) d) :
    d.pending.lookup d.nextOff = if p.here then some p.bytes else none := by
  have hoff := h.tiles.1
  split
  · next hhere => exact (h.pending _ _).mpr ⟨p, mem_cons_self, hoff, rfl, hhere⟩
  rename_i haway
  rw [Option.eq_none_iff_forall_ne_some]
  intro data hdata
  obtain ⟨q, hq, hqoff, -, hqhere⟩ := (h.pending _ _).mp hdata
  rw [h.tiles.eq_of_off_eq hq mem_cons_self (hqoff.trans hoff.symm)] at hqhere
  exact haway hqhere

theorem lookup_nextOff_nil (h : Holds record front [] d) : d.pending.lookup d.nextOff = none := by
  rw [Option.eq_none_iff_forall_ne_some]
  intro data hdata
  obtain ⟨q, hq, -⟩ := (h.pending _ _).mp hdata
  cases hq

/-- Draining hands on the pieces at the front that are here. -/
theorem drainPendingFuel (h : Holds record front ps d) (hfuel : d.pending.keys.length ≤ fuel) :
    Holds record front (ps.dropWhile Piece.here) (Delivery.drainPendingFuel fuel d) := by
  induction ps generalizing d fuel with
  | nil =>
    cases fuel with
    | zero => exact h
    | succ fuel =>
      rw [Delivery.drainPendingFuel, h.lookup_nextOff_nil]
      exact h
  | cons p ps ih =>
    have hlookup := h.lookup_nextOff_cons
    by_cases hhere : p.here = true
    · rw [if_pos hhere] at hlookup
      have hkey : d.nextOff ∈ d.pending.keys :=
        AList.mem_keys.mp (AList.lookup_isSome.mp (by rw [hlookup]; rfl))
      have hpos := length_pos_of_mem hkey
      obtain ⟨fuel, rfl⟩ : ∃ fuel', fuel = fuel' + 1 := ⟨fuel - 1, by omega⟩
      rw [dropWhile_cons_of_pos hhere, Delivery.drainPendingFuel, hlookup]
      refine ih h.tail ?_
      rw [pushBlock_eq (by exact h.running), AList.keys_erase, length_erase_of_mem hkey]
      omega
    · rw [if_neg hhere] at hlookup
      rw [dropWhile_cons_of_neg hhere]
      cases fuel with
      | zero => exact h
      | succ fuel =>
        rw [Delivery.drainPendingFuel, hlookup]
        exact h

/-- An intact piece behind the others. -/
theorem concat_here (h : Holds record front ps d) (hne : bytes ≠ []) (hbytes : bytes <+: record.drop front) :
    Holds record (front + bytes.length) (ps ++ [⟨front, bytes, false, true⟩])
      { d with pending := d.pending.insert front bytes } := by
  have hbefore : ∀ q ∈ ps, q.off ≠ front := fun q hq => (h.tiles.mem hq).2.ne
  refine ⟨h.running, h.pushed, h.nonempty, h.received, h.tiles.concat rfl hne hbytes, fun o data => ?_,
    fun o => ?_, ?_, ?_, fun o ho => Nat.lt_add_right _ (h.fresh o ho)⟩
  · rw [lookup_insert_eq_some, h.pending, or_comm]
    simp only [mem_append, mem_singleton, or_and_right, exists_or, exists_eq_left]
    refine or_congr ⟨And.right, ?_⟩ (by simp [eq_comm])
    rintro ⟨q, hq, rfl, hrest⟩
    exact ⟨hbefore q hq, q, hq, rfl, hrest⟩
  · rw [h.holes]
    simp
  · exact forall_mem_append.mpr ⟨h.damaged, forall_mem_singleton.mpr nofun⟩
  · exact forall_mem_append.mpr ⟨h.resent, forall_mem_singleton.mpr nofun⟩

/-- A damaged piece behind the others. -/
theorem concat_missing (h : Holds record front ps d) (hne : bytes ≠ [])
    (hbytes : bytes <+: record.drop front) (requests : List (ℕ × ℕ)) (len : ℕ) :
    Holds record (front + bytes.length) (ps ++ [⟨front, bytes, true, false⟩])
      { d with
        resentOffsets := front :: d.resentOffsets
        requests
        holeLen := d.holeLen.insert front len } := by
  have hpos := length_pos_iff.mpr hne
  refine ⟨h.running, h.pushed, h.nonempty, h.received, h.tiles.concat rfl hne hbytes, fun o data => ?_,
    fun o => ?_, ?_, ?_, ?_⟩
  · rw [h.pending]
    simp
  · rw [lookup_isSome, mem_insert, ← lookup_isSome, h.holes, or_comm]
    simp [or_and_right, exists_or, eq_comm (a := o)]
  · exact forall_mem_append.mpr ⟨h.damaged, forall_mem_singleton.mpr (fun _ => rfl)⟩
  · refine forall_mem_append.mpr ⟨fun q hq hdamaged => ?_, forall_mem_singleton.mpr fun _ => mem_cons_self⟩
    exact mem_cons_of_mem _ (h.resent q hq hdamaged)
  · refine forall_mem_cons.mpr ⟨Nat.lt_add_of_pos_right hpos, fun o ho => ?_⟩
    exact Nat.lt_add_right _ (h.fresh o ho)

theorem fill {before : List Piece} (h : Holds record front (before ++ p :: ps) d) :
    Holds record front (before ++ { p with here := true } :: ps)
      { d with pending := d.pending.insert p.off p.bytes } := by
  have hself : { p with here := true } ∈ before ++ { p with here := true } :: ps :=
    mem_append_right before mem_cons_self
  have htiles := h.tiles.replace (q := { p with here := true }) rfl rfl
  -- the pieces at other places are the same as before
  have hmem : ∀ {q : Piece}, q.off ≠ p.off →
      (q ∈ before ++ { p with here := true } :: ps ↔ q ∈ before ++ p :: ps) := by
    intro q hne
    simp only [mem_append, mem_cons]
    refine or_congr_right (or_congr_left (iff_of_false ?_ ?_)) <;> rintro rfl <;> exact hne rfl
  have hdamaged := forall_mem_append.mp h.damaged
  refine ⟨h.running, h.pushed, h.nonempty, h.received, htiles, fun o data => ?_, fun o => ?_,
    forall_mem_append.mpr ⟨hdamaged.1, forall_mem_cons.mpr ⟨by simp, (forall_mem_cons.mp hdamaged.2).2⟩⟩, ?_,
    h.fresh⟩
  · rw [lookup_insert_eq_some, h.pending]
    constructor
    · rintro (⟨rfl, rfl⟩ | ⟨ho, q, hq, rfl, hrest⟩)
      · exact ⟨_, hself, rfl, rfl, rfl⟩
      · exact ⟨q, (hmem ho).mpr hq, rfl, hrest⟩
    · rintro ⟨q, hq, rfl, rfl, hhere⟩
      by_cases ho : q.off = p.off
      · rw [htiles.eq_of_off_eq hq hself ho]
        exact .inl ⟨rfl, rfl⟩
      · exact .inr ⟨ho, q, (hmem ho).mp hq, rfl, rfl, hhere⟩
  · rw [h.holes]
    simp [or_and_right, exists_or]
  · have hresent := h.resent
    rw [forall_mem_append, forall_mem_cons] at hresent ⊢
    exact hresent

end Holds

/-! ### Gaps -/

/-- The thread has taken in the record up to `front`, except for the gaps. -/
def Waiting (record : Bytes) (front : ℕ) (gaps : List (ℕ × Bytes)) (d : Delivery) : Prop :=
  ∃ ps, Holds record front ps d ∧ (∀ p, ps.head? = some p → p.here = false) ∧ (missing ps).Perm gaps

theorem waiting_start (record : Bytes) : Waiting record 0 [] {} :=
  ⟨[], ⟨rfl, rfl, fun _ h => absurd h not_mem_nil, rfl, rfl, by simp, by simp, by simp, by simp,
    by simp⟩, by simp, List.Perm.nil⟩

namespace Waiting

variable {record bytes : Bytes} {front : ℕ} {gaps : List (ℕ × Bytes)} {d : Delivery}

section

variable (h : Waiting record front gaps d)

include h

theorem running : d.outcome = none := by
  obtain ⟨ps, hholds, -⟩ := h
  exact hholds.running

theorem pushed : d.pushed.flatten <+: record ∧ ∀ b ∈ d.pushed, b ≠ [] := by
  obtain ⟨ps, hholds, -⟩ := h
  exact ⟨hholds.pushed ▸ take_prefix _ _, hholds.nonempty⟩

theorem perm {gaps' : List (ℕ × Bytes)} (hperm : gaps.Perm gaps') :
    Waiting record front gaps' d := by
  obtain ⟨ps, hholds, hhead, hgaps⟩ := h
  exact ⟨ps, hholds, hhead, hgaps.trans hperm⟩

theorem fresh : front ∉ d.resentOffsets := by
  obtain ⟨ps, hholds, -⟩ := h
  exact fun hmem => absurd (hholds.fresh front hmem) (lt_irrefl front)

theorem resent (hgap : gap ∈ gaps) : gap.1 ∈ d.resentOffsets := by
  obtain ⟨ps, hholds, -, hgaps⟩ := h
  obtain ⟨p, hp, haway, hoff, -⟩ := mem_missing.mp (hgaps.mem_iff.mpr hgap)
  exact hoff ▸ hholds.resent p hp (hholds.damaged p hp haway)

end

/-- Without gaps, everything was handed on. -/
theorem nextOff_eq (h : Waiting record front [] d) : d.nextOff = front := by
  obtain ⟨ps, hholds, hhead, hgaps⟩ := h
  cases ps with
  | nil => exact hholds.tiles
  | cons p ps =>
    have hmem : (p.off, p.bytes) ∈ missing (p :: ps) :=
      mem_missing.mpr ⟨p, mem_cons_self, hhead p rfl, rfl, rfl⟩
    rw [perm_nil.mp hgaps] at hmem
    cases hmem

theorem received (h : Waiting record front [] d) : d.received = front := by
  have hnext := h.nextOff_eq
  obtain ⟨ps, hholds, -⟩ := h
  rw [hholds.received, hnext]

theorem pushed_eq (h : Waiting record front [] d) : d.pushed.flatten = record.take front := by
  have hnext := h.nextOff_eq
  obtain ⟨ps, hholds, -⟩ := h
  rw [hholds.pushed, hnext]

/-- The table of holes is empty exactly if there are no gaps. -/
theorem holeLen_eq_nil_iff (h : Waiting record front gaps d) : d.holeLen.keys = [] ↔ gaps = [] := by
  obtain ⟨ps, hholds, hhead, hgaps⟩ := h
  cases ps with
  | nil =>
    refine iff_of_true ?_ (nil_perm.mp hgaps)
    rw [eq_nil_iff_forall_not_mem]
    intro o ho
    obtain ⟨p, hp, -⟩ := (hholds.holes o).mp (lookup_isSome.mpr (mem_keys.mpr ho))
    cases hp
  | cons p ps =>
    have haway := hhead p rfl
    have hmem : (p.off, p.bytes) ∈ gaps :=
      hgaps.mem_iff.mp (mem_missing.mpr ⟨p, mem_cons_self, haway, rfl, rfl⟩)
    have hhole : p.off ∈ d.holeLen.keys := by
      refine mem_keys.mp (lookup_isSome.mp ?_)
      exact (hholds.holes p.off).mpr ⟨p, mem_cons_self, rfl, hholds.damaged p mem_cons_self haway⟩
    exact iff_of_false (ne_nil_of_mem hhole) (ne_nil_of_mem hmem)

/-- The next bytes of the record come intact. -/
theorem arrive (h : Waiting record front gaps d) (hne : bytes ≠ []) (hbytes : bytes <+: record.drop front) :
    Waiting record (front + bytes.length) gaps (d.deliverBytes bytes front) := by
  have hkeys := h.holeLen_eq_nil_iff
  obtain ⟨ps, hholds, hhead, hgaps⟩ := h
  cases ps with
  | nil =>
    have hnext : d.nextOff = front := hholds.tiles
    have hempty : d.holeLen.keys = [] := hkeys.mpr (nil_perm.mp hgaps)
    obtain ⟨rest, hrest⟩ := hbytes
    rw [deliverBytes, if_neg (by omega), if_pos ⟨hnext.symm, hempty⟩, Holds.pushBlock_eq hholds.running]
    refine ⟨[], ⟨hholds.running, ?_, ?_, ?_, rfl, hholds.pending, hholds.holes, by simp, by simp,
      fun o ho => Nat.lt_add_right _ (hholds.fresh o ho)⟩, by simp, hgaps⟩
    · rw [flatten_append, hholds.pushed, hnext, take_add, ← hrest, take_left]
      simp
    · exact forall_mem_append.mpr ⟨hholds.nonempty, forall_mem_singleton.mpr hne⟩
    · rw [hholds.received, hnext]
  | cons p ps =>
    have haway := hhead p rfl
    have hlt := hholds.tiles.mem mem_cons_self
    rw [deliverBytes, if_neg (by omega), if_neg (fun hsecond => by omega)]
    refine ⟨p :: (ps ++ [⟨front, bytes, false, true⟩]), ?_, fun q hq => ?_, ?_⟩
    · have hdrain := (hholds.concat_here hne hbytes).drainPendingFuel le_rfl
      rw [cons_append, dropWhile_cons_of_neg (by simp [haway])] at hdrain
      exact hdrain
    · rw [← Option.some.inj hq]
      exact haway
    · rw [← cons_append, missing_append]
      simpa [missing] using hgaps

/-- The next bytes of the record are damaged, and were asked for again. -/
theorem lose (h : Waiting record front gaps d) (hne : bytes ≠ [])
    (hbytes : bytes <+: record.drop front) (requests : List (ℕ × ℕ)) (len : ℕ) :
    Waiting record (front + bytes.length) (gaps ++ [(front, bytes)])
      { d with
        resentOffsets := front :: d.resentOffsets
        requests
        holeLen := d.holeLen.insert front len } := by
  obtain ⟨ps, hholds, hhead, hgaps⟩ := h
  refine ⟨ps ++ [⟨front, bytes, true, false⟩], hholds.concat_missing hne hbytes requests len,
    fun p hp => ?_, ?_⟩
  · cases ps with
    | nil =>
      rw [← Option.some.inj hp]
    | cons q ps => exact hhead p hp
  · rw [missing_append]
    exact hgaps.append_right _

theorem repair (h : Waiting record front (gap :: gaps) d) :
    Waiting record front gaps (d.deliverBytes gap.2 gap.1) := by
  have hkeys := h.holeLen_eq_nil_iff
  obtain ⟨ps, hholds, hhead, hgaps⟩ := h
  obtain ⟨p, hp, haway, hoff, hbytes⟩ := mem_missing.mp (hgaps.mem_iff.mpr mem_cons_self)
  have hle := (hholds.tiles.mem hp).1
  have hholes : ¬d.holeLen.keys = [] := fun hnil => absurd (hkeys.mp hnil) (cons_ne_nil _ _)
  obtain ⟨before, after, rfl⟩ := append_of_mem hp
  rw [deliverBytes, if_neg (by omega), if_neg (fun hsecond => hholes hsecond.2), ← hoff, ← hbytes]
  refine ⟨_, hholds.fill.drainPendingFuel le_rfl, fun q hq => ?_, ?_⟩
  · have hfirst := head?_dropWhile_not Piece.here (before ++ { p with here := true } :: after)
    rw [hq] at hfirst
    exact hfirst
  · rw [missing_dropWhile]
    have hsplit : (missing (before ++ p :: after)).Perm
        (gap :: missing (before ++ { p with here := true } :: after)) := by
      rw [missing_append, missing_append]
      have hthis : missing (p :: after) = gap :: missing after := by
        simp [missing, haway, hoff, hbytes]
      have hthat : missing ({ p with here := true } :: after) = missing after := by
        simp [missing]
      rw [hthis, hthat]
      exact perm_middle
    exact (perm_cons gap).mp (hsplit.symm.trans hgaps)

end Waiting

/-! ### A record on its way -/

/-- Bytes that begin with a block the receiver takes for good. -/
structure Accepts (c : Codecs) (data : Bytes) : Prop where
  comp : ¬negative (read data).compSize
  unc : ¬negative (read data).uncSize
  long : 16 + (read data).compSize ≤ data.length
  crc : c.dataChecksum ((data.drop 16).take (read data).compSize) = (read data).crc

/-- What has become of a block on its way, as the checksum detects it: whatever follows, the receiver finds
no good block there. -/
structure Damaged (c : Codecs) (block arrived : Bytes) : Prop where
  length : arrived.length = block.length
  detected : ∀ rest, ¬Accepts c (arrived ++ rest)

theorem length_of_arrived {c : Codecs} {block arrived : Bytes}
    (h : arrived = block ∨ Damaged c block arrived) : arrived.length = block.length :=
  h.elim (congrArg length) Damaged.length

/-- A whole block with its checksum. -/
structure WholeBlock (c : Codecs) (block : Bytes) : Prop extends Sized block where
  crc : c.dataChecksum (block.drop 16) = (read block).crc

/-- The damaged blocks, with their offsets in the record. -/
def damagedFrom : ℕ → List (Bytes × Bytes) → List (ℕ × Bytes)
  | _, [] => []
  | offset, b :: blocks =>
    (if b.2 = b.1 then [] else [(offset, b.1)]) ++ damagedFrom (offset + b.1.length) blocks

/-- The checksums that frames carry: none, or that of their bytes. -/
structure Stamp (c : Codecs) where
  crc : ℕ → Bytes → UInt64
  spec : ∀ offset raw, crc offset raw = 0 ∨ crc offset raw = c.dataChecksum raw

def Stamp.frame {c : Codecs} (stamp : Stamp c) (offset : ℕ) (raw : Bytes) : ChunkFrame :=
  { offset, raw, crc := stamp.crc offset raw }

/-- The frames of consecutive pieces. -/
def framesFrom {c : Codecs} (stamp : Stamp c) : ℕ → List Bytes → List ChunkFrame
  | _, [] => []
  | offset, piece :: pieces => stamp.frame offset piece :: framesFrom stamp (offset + piece.length) pieces

/-- A record that is sent in pieces.  Some of its blocks come damaged, but with their length fields; they are
sent again, in some order, and may then come damaged in any way. -/
structure Transmission (c : Codecs) where
  /-- each block, and what arrives of it at first -/
  blocks : List (Bytes × Bytes)
  trailer : Bytes
  whole : ∀ b ∈ blocks, WholeBlock c b.1
  arrived : ∀ b ∈ blocks, b.2 = b.1 ∨ Damaged c b.1 b.2 ∧ b.2.take 8 = b.1.take 8
  /-- what arrives, cut into frames -/
  pieces : List Bytes
  pieces_ne_nil : ∀ piece ∈ pieces, piece ≠ []
  flatten_pieces : pieces.flatten = (blocks.map snd).flatten ++ trailer
  /-- the damaged blocks in the order in which they are sent again, and what arrives then -/
  order : List (ℕ × Bytes)
  order_perm : order.Perm (damagedFrom 0 blocks)
  resent : List Bytes
  resent_spec : Forall₂ (fun gap bytes => bytes = gap.2 ∨ Damaged c gap.2 bytes) order resent
  stamp : Stamp c

namespace Transmission

variable {c : Codecs} (t : Transmission c)

def record : Bytes := (t.blocks.map fst).flatten ++ t.trailer

/-- Every block that was sent again is intact. -/
def Intact : Prop := t.resent = t.order.map snd

/-- The frames of the blocks that are sent again. -/
def resendFrames (stamp : Stamp c) (order : List (ℕ × Bytes)) (resent : List Bytes) : List Arrival :=
  zipWith (fun gap bytes => .chunk (stamp.frame gap.1 bytes)) order resent

theorem resendFrames_cons (stamp : Stamp c) (gap : ℕ × Bytes) (bytes : Bytes) (order : List (ℕ × Bytes))
    (resent : List Bytes) : resendFrames stamp (gap :: order) (bytes :: resent) =
      .chunk (stamp.frame gap.1 bytes) :: resendFrames stamp order resent := rfl

def arrivals : List Arrival :=
  (framesFrom t.stamp 0 t.pieces).map .chunk ++ .digest :: resendFrames t.stamp t.order t.resent

end Transmission

open Transmission

/-! ### The first pass -/

theorem BlockHeader.sizes_read_of_take_eq {a b : Bytes} (h : a.take 8 = b.take 8) :
    (read a).uncSize = (read b).uncSize ∧ (read a).compSize = (read b).compSize := by
  have hfirst : ∀ x : Bytes, (read x).uncSize = ofLE ((x.take 8).take 4) := by
    intro x
    rw [take_take]
    rfl
  have hsecond : ∀ x : Bytes, (read x).compSize = ofLE (((x.take 8).drop 4).take 4) := by
    intro x
    rw [drop_take, take_take]
    rfl
  rw [hfirst, hfirst, hsecond, hsecond, h]
  exact ⟨rfl, rfl⟩

namespace NetworkChunkSource

variable {c : Codecs} {sendAll : ℕ → Bool} {record block arrived : Bytes} {front : ℕ}
  {gaps : List (ℕ × Bytes)} {d : Delivery}

/-- The length fields of an arrived block are those of the block. -/
theorem sized_of_arrived (hblock : WholeBlock c block)
    (harrived : arrived = block ∨ Damaged c block arrived ∧ arrived.take 8 = block.take 8) :
    Sized arrived := by
  rcases harrived with rfl | ⟨hdamaged, hfields⟩
  · exact hblock.toSized
  · obtain ⟨hunc, hcomp⟩ := sizes_read_of_take_eq hfields
    refine ⟨hcomp ▸ hblock.comp, hunc ▸ hblock.unc, ?_⟩
    rw [hdamaged.length, hblock.length, hcomp]

/-- If its length fields are right, a damaged block is one whose checksum does not match. -/
theorem damaged_iff_crc_ne (hsized : Sized arrived) (hlength : arrived.length = block.length) :
    Damaged c block arrived ↔ c.dataChecksum (arrived.drop 16) ≠ (read arrived).crc := by
  have hsum := hsized.length
  have hlong : 16 ≤ arrived.length := by omega
  constructor
  · intro hdamaged hcrc
    refine hdamaged.detected [] ?_
    rw [append_nil]
    refine ⟨hsized.comp, hsized.unc, hsum.ge, ?_⟩
    rw [take_of_length_le (by rw [length_drop]; omega)]
    exact hcrc
  · refine fun hcrc => ⟨hlength, fun rest haccepts => hcrc ?_⟩
    have hmatch := haccepts.crc
    rw [read_append hlong, drop_append_of_le_length hlong,
      take_left' (by rw [length_drop]; omega)] at hmatch
    exact hmatch

/-- The blocks of a first pass are handed on or asked for again. -/
theorem consumeAll_of_waiting (hsend : ∀ o, sendAll o = true) {blocks : List (Bytes × Bytes)}
    (hwhole : ∀ b ∈ blocks, WholeBlock c b.1)
    (harrived : ∀ b ∈ blocks, b.2 = b.1 ∨ Damaged c b.1 b.2 ∧ b.2.take 8 = b.1.take 8)
    (h : Waiting record front gaps d) (hrecord : (blocks.map fst).flatten <+: record.drop front) :
    ∃ d', consumeAll c sendAll (blocks.map snd) front d = some d' ∧
      Waiting record (front + (blocks.map fst).flatten.length) (gaps ++ damagedFrom front blocks)
        d' := by
  induction blocks generalizing front gaps d with
  | nil =>
    rw [damagedFrom, append_nil]
    exact ⟨d, rfl, h⟩
  | cons b blocks ih =>
    have hblock := hwhole b mem_cons_self
    have hcame := harrived b mem_cons_self
    have hsized := sized_of_arrived hblock hcame
    have hlength := length_of_arrived (hcame.imp_right And.left)
    have hsum := hblock.length
    have hne : b.1 ≠ [] := length_pos_iff.mp (by omega)
    rw [map_cons, flatten_cons] at hrecord
    obtain ⟨rest, hrest⟩ := hrecord
    rw [append_assoc] at hrest
    have hhere : b.1 <+: record.drop front := ⟨_, hrest⟩
    have hbehind : (blocks.map fst).flatten <+: record.drop (front + b.1.length) := by
      refine ⟨rest, ?_⟩
      rw [← drop_drop, ← hrest, drop_left]
    -- the block itself
    obtain ⟨d₁, hconsume, hwaiting⟩ : ∃ d₁, d.consumeBlock c sendAll b.2 front = (d₁, true) ∧
        Waiting record (front + b.1.length)
          (gaps ++ if b.2 = b.1 then [] else [(front, b.1)]) d₁ := by
      rcases hcame with heq | ⟨hdamaged, -⟩
      · refine ⟨d.deliverBytes b.1 front, ?_, ?_⟩
        · rw [heq, consumeBlock, if_pos hblock.crc]
        · rw [if_pos heq, append_nil]
          exact h.arrive hne hhere
      · have hbad := (damaged_iff_crc_ne hsized hdamaged.length).mp hdamaged
        have hneq : b.2 ≠ b.1 := by
          intro heq
          rw [heq] at hbad
          exact hbad hblock.crc
        rw [if_neg hneq, consumeBlock, if_neg hbad, if_neg h.fresh]
        rw [if_pos (hsend front)]
        exact ⟨_, rfl, h.lose hne hhere _ _⟩
    obtain ⟨d', hrun, hfinal⟩ := ih (fun b' hb' => hwhole b' (mem_cons_of_mem b hb'))
      (fun b' hb' => harrived b' (mem_cons_of_mem b hb')) hwaiting hbehind
    refine ⟨d', ?_, ?_⟩
    · rw [map_cons, consumeAll, hconsume]
      rw [hlength]
      exact hrun
    · rw [map_cons, flatten_cons, length_append, ← add_assoc, damagedFrom, ← append_assoc]
      exact hfinal

end NetworkChunkSource

section Cut

variable {α β : Type*} (f : α → List β)

/-- A sequence of lists, cut after `n` elements: whole lists, and the first elements of another. -/
theorem exists_cut (ls : List α) (hn : n ≤ (ls.map f).flatten.length) :
    ∃ done rest q, ls = done ++ rest ∧ (ls.map f).flatten.take n = (done.map f).flatten ++ q ∧
      (q = [] ∨ ∃ a more tail, rest = a :: more ∧ tail ≠ [] ∧ f a = q ++ tail) := by
  induction ls generalizing n with
  | nil =>
    rw [map_nil, flatten_nil, take_nil]
    exact ⟨[], [], [], rfl, rfl, .inl rfl⟩
  | cons a ls ih =>
    rw [map_cons, flatten_cons, length_append] at hn
    rw [map_cons, flatten_cons]
    by_cases hshort : n < (f a).length
    · -- the cut is in the first list
      refine ⟨[], a :: ls, (f a).take n, rfl, ?_, .inr ⟨a, ls, (f a).drop n, rfl, ?_, ?_⟩⟩
      · exact take_append_of_le_length hshort.le
      · exact length_pos_iff.mp (by rw [length_drop]; omega)
      · exact (take_append_drop n (f a)).symm
    · obtain ⟨done, rest, q, hsplit, htake, hq⟩ := ih (n := n - (f a).length) (by omega)
      refine ⟨a :: done, rest, q, by rw [hsplit, cons_append], ?_, hq⟩
      rw [take_append, take_of_length_le (by omega), htake, map_cons, flatten_cons, append_assoc]

end Cut

theorem damagedFrom_append (offset : ℕ) (xs ys : List (Bytes × Bytes)) : damagedFrom offset (xs ++ ys) =
      damagedFrom offset xs ++ damagedFrom (offset + (xs.map fst).flatten.length) ys := by
  induction xs generalizing offset with
  | nil => rfl
  | cons b xs ih =>
    rw [cons_append, damagedFrom, ih, damagedFrom, map_cons, flatten_cons,
      length_append, append_assoc, add_assoc]

namespace Transmission

variable {c : Codecs} (t : Transmission c)

def area : ℕ := (t.blocks.map fst).flatten.length

theorem length_arrived (hbs : ∀ b ∈ bs, b ∈ t.blocks) :
    (bs.map snd).flatten.length = (bs.map fst).flatten.length := by
  induction bs with
  | nil => rfl
  | cons b bs ih =>
    have hlength := length_of_arrived ((t.arrived b (hbs b mem_cons_self)).imp_right And.left)
    rw [map_cons, map_cons, flatten_cons, flatten_cons, length_append,
      length_append, ih fun b' hb' => hbs b' (mem_cons_of_mem b hb'), hlength]

/-- How far the first pass has come: `k` bytes are read, and they end inside a block or in the trailer. -/
inductive Reading (k : ℕ) (s : NetworkChunkSource) : Prop where
  | blocks (done rest : List (Bytes × Bytes)) (q : Bytes) (hblocks : t.blocks = done ++ rest)
      (hk : k = (done.map fst).flatten.length + q.length) (hinside : k < t.area)
      (hq : q <+: (rest.map snd).flatten)
      (hmid : s.Midway (done.map fst).flatten.length q)
      (hwaiting : Waiting t.record (done.map fst).flatten.length (damagedFrom 0 done) s.delivery)
  | trailer (hbehind : t.area ≤ k) (hbuf : s.parseBuf = []) (hneed : s.parseNeed = 16)
      (hwaiting : Waiting t.record k (damagedFrom 0 t.blocks) s.delivery)

variable {t} {k : ℕ} {s : NetworkChunkSource} {sendAll : ℕ → Bool} {m : ChunkMeta}

theorem Reading.running (h : t.Reading k s) : s.delivery.outcome = none := by
  cases h with
  | blocks done rest q hblocks hk hinside hq hmid hwaiting => exact hwaiting.running
  | trailer hbehind hbuf hneed hwaiting => exact hwaiting.running

theorem reading_start (t : Transmission c) : t.Reading 0 {} := by
  by_cases harea : t.area = 0
  · refine .trailer harea.le rfl rfl ?_
    have hnone : damagedFrom 0 t.blocks = [] := by
      cases hblocks : t.blocks with
      | nil => rfl
      | cons b blocks =>
        have hlength := (t.whole b (hblocks ▸ mem_cons_self)).length
        rw [area, hblocks, map_cons, flatten_cons, length_append] at harea
        omega
    rw [hnone]
    exact waiting_start t.record
  · exact .blocks [] t.blocks [] rfl rfl (by omega) nil_prefix (midway_nil rfl rfl) (waiting_start t.record)

variable {done rest next : List (Bytes × Bytes)} {q : Bytes}

theorem mem_blocks_of_split (hblocks : t.blocks = done ++ (next ++ rest)) : ∀ b ∈ next, b ∈ t.blocks := by
  intro b hb
  rw [hblocks]
  exact mem_append_right done (mem_append_left rest hb)

/-- Bytes that complete the blocks `next`, and end with the first bytes `q'` of another. -/
theorem feedBlocks_waiting (hsend : ∀ o, sendAll o = true)
    {q' data : Bytes} (hblocks : t.blocks = done ++ (next ++ rest))
    (hmid : s.Midway (done.map fst).flatten.length q)
    (hwaiting : Waiting t.record (done.map fst).flatten.length (damagedFrom 0 done) s.delivery)
    (hdata : q ++ data = (next.map snd).flatten ++ q')
    (hq : q' = [] ∨ ∃ tail, tail ≠ [] ∧ Sized (q' ++ tail)) :
    let s' := s.feedBlocks c sendAll data.length data ((done.map fst).flatten.length + q.length)
    s'.Midway ((done ++ next).map fst).flatten.length q' ∧
      Waiting t.record ((done ++ next).map fst).flatten.length (damagedFrom 0 (done ++ next))
        s'.delivery := by
  intro s'
  have hmem := mem_blocks_of_split hblocks
  have hrecord : (next.map fst).flatten <+: t.record.drop (done.map fst).flatten.length := by
    refine ⟨(rest.map fst).flatten ++ t.trailer, ?_⟩
    rw [record, hblocks, map_append, flatten_append, append_assoc, drop_left,
      map_append, flatten_append, append_assoc]
  have hsized : ∀ block ∈ next.map snd, Sized block :=
    forall_mem_map.mpr fun b hb =>
      sized_of_arrived (t.whole b (hmem b hb)) (t.arrived b (hmem b hb))
  obtain ⟨d', hconsume, hwaiting'⟩ := consumeAll_of_waiting hsend
    (fun b hb => t.whole b (hmem b hb)) (fun b hb => t.arrived b (hmem b hb)) hwaiting hrecord
  obtain ⟨hdelivery, hmid'⟩ := feedBlocks_spec hmid hdata hsized hq hconsume le_rfl
  rw [t.length_arrived hmem] at hmid'
  have hlength : ((done ++ next).map fst).flatten.length =
      (done.map fst).flatten.length + (next.map fst).flatten.length := by
    rw [map_append, flatten_append, length_append]
  have hgaps : damagedFrom 0 (done ++ next) =
      damagedFrom 0 done ++ damagedFrom (done.map fst).flatten.length next := by
    rw [damagedFrom_append, zero_add]
  rw [hlength, hgaps]
  exact ⟨hmid', hdelivery ▸ hwaiting'⟩

/-- What is left of the arriving bytes, when the blocks `done` and `q` are read. -/
theorem drop_flatten_pieces {more : Bytes}
    (hblocks : t.blocks = done ++ rest) (hmore : q ++ more = (rest.map snd).flatten) :
    t.pieces.flatten.drop ((done.map fst).flatten.length + q.length) = more ++ t.trailer := by
  have hdone : ∀ b ∈ done, b ∈ t.blocks := fun b hb => hblocks ▸ mem_append_left rest hb
  rw [t.flatten_pieces, hblocks, map_append, flatten_append, ← hmore,
    ← t.length_arrived hdone, ← length_append]
  simp only [append_assoc]
  rw [← append_assoc, drop_left]

theorem length_flatten_pieces (t : Transmission c) : t.pieces.flatten.length = t.record.length := by
  rw [t.flatten_pieces, record, length_append, length_append, t.length_arrived fun b hb => hb]

/-- Behind the blocks, what arrives is what was sent. -/
theorem drop_record (t : Transmission c) (h : t.area ≤ k) : t.record.drop k = t.pieces.flatten.drop k := by
  have hlength := t.length_arrived fun b hb => hb
  rw [t.flatten_pieces, record, drop_append, drop_append, hlength,
    drop_of_length_le (show (t.blocks.map fst).flatten.length ≤ k from h),
    drop_of_length_le (hlength.le.trans h)]

/-- **A frame of the first pass.** -/
theorem Reading.feedFrame (hsend : ∀ o, sendAll o = true) (hmeta : m.blockArea = t.area)
    (h : t.Reading k s) {piece back : Bytes} (hne : piece ≠ [])
    (hpiece : t.pieces.flatten.drop k = piece ++ back) :
    t.Reading (k + piece.length) (s.feedFrame c sendAll m piece k) := by
  unfold NetworkChunkSource.feedFrame
  rw [if_neg hne, hmeta]
  cases h with
  | trailer hbehind hbuf hneed hwaiting =>
    rw [if_pos hbehind]
    refine .trailer (by omega) hbuf hneed (hwaiting.arrive hne ⟨back, ?_⟩)
    rw [t.drop_record hbehind, hpiece]
  | blocks done rest q hblocks hk hinside hq hmid hwaiting =>
    obtain ⟨more, hmore⟩ := hq
    have hdrop := drop_flatten_pieces hblocks hmore
    rw [← hk, hpiece] at hdrop
    have hrest : ∀ b ∈ rest, b ∈ t.blocks := fun b hb => hblocks ▸ mem_append_right done hb
    have harea : t.area = k + more.length := by
      have hlength := t.length_arrived hrest
      rw [← hmore, length_append] at hlength
      rw [area, hblocks, map_append, flatten_append, length_append, ← hlength, hk, add_assoc]
    rw [if_neg (by omega)]
    by_cases hshort : piece.length < more.length
    · -- the frame ends in the block area
      obtain ⟨more', hmore'⟩ : piece <+: more :=
        prefix_of_prefix_length_le ⟨back, hdrop⟩ ⟨t.trailer, rfl⟩ hshort.le
      rw [if_neg (by omega)]
      rw [← hmore', ← append_assoc] at hmore
      have htake : (rest.map snd).flatten.take (q ++ piece).length = q ++ piece := by
        rw [← hmore, take_left]
      obtain ⟨next, rest', q', rfl, hcut, hq'⟩ := exists_cut snd rest
        (List.IsPrefix.length_le ⟨more', hmore⟩)
      rw [htake] at hcut
      obtain ⟨hmid', hwaiting'⟩ := feedBlocks_waiting hsend hblocks hmid hwaiting hcut (by
        refine hq'.imp_right ?_
        rintro ⟨b, others, tail, rfl, htail, hb⟩
        have hbmem := hrest b (mem_append_right next mem_cons_self)
        exact ⟨tail, htail, hb ▸ sized_of_arrived (t.whole b hbmem) (t.arrived b hbmem)⟩)
      rw [← hk] at hmid' hwaiting'
      refine .blocks (done ++ next) rest' q' (by rw [hblocks, append_assoc]) ?_ (by omega) ?_ hmid'
        hwaiting'
      · have hlength := congrArg length hcut
        rw [length_append, length_append, t.length_arrived (mem_blocks_of_split hblocks)] at hlength
        rw [map_append, flatten_append, length_append]
        omega
      · rw [hcut, map_append, flatten_append, append_assoc] at hmore
        exact ⟨more', append_cancel_left hmore⟩
    · -- the frame has the rest of the block area
      obtain ⟨behind, hbehind⟩ : more <+: piece :=
        prefix_of_prefix_length_le ⟨t.trailer, rfl⟩ ⟨back, hdrop⟩ (not_lt.mp hshort)
      have hblocks' : t.blocks = done ++ (rest ++ []) := by rw [append_nil, hblocks]
      obtain ⟨hmid', hwaiting'⟩ := feedBlocks_waiting hsend hblocks' hmid hwaiting
        (hmore.trans (append_nil _).symm) (.inl rfl)
      rw [← hblocks, ← hk] at hmid' hwaiting'
      have hlength : piece.length = more.length + behind.length := by
        rw [← hbehind, length_append]
      by_cases hnil : behind = []
      · rw [hnil, append_nil] at hbehind
        rw [← hbehind, if_neg (by omega), ← harea]
        exact .trailer le_rfl hmid'.buf hmid'.need hwaiting'
      · have hpos' := length_pos_iff.mpr hnil
        have hhead : t.area - k = more.length := by omega
        have hthere : behind <+: t.record.drop t.area := by
          refine ⟨back, ?_⟩
          rw [t.drop_record le_rfl, harea, ← drop_drop, hpiece, ← hbehind, append_assoc, drop_left]
        rw [if_pos (by omega), hlength, ← add_assoc, ← harea]
        dsimp only
        rw [hhead, ← hbehind, take_left, drop_left]
        exact .trailer (le_add_right _ _) hmid'.buf hmid'.need (Waiting.arrive hwaiting' hnil hthere)

/-- A frame of the record passes the checks of `read_one_frame`. -/
theorem readChunk_eq (stamp : Stamp c) {raw : Bytes} (hne : raw ≠ [])
    (hle : offset + raw.length ≤ m.totalCompressedLen) :
    s.readChunk c sendAll m (stamp.frame offset raw) = (s, true) := by
  have hcrc : ¬(stamp.crc offset raw ≠ 0 ∧ c.dataChecksum raw ≠ stamp.crc offset raw) := fun h =>
    (stamp.spec offset raw).elim h.1 fun hsame => h.2 hsame.symm
  exact (if_neg (not_or.mpr ⟨hne, not_lt.mpr hle⟩)).trans (if_neg hcrc)

/-- **The first pass**: the frames of the record. -/
theorem recvLoop_frames (hsend : ∀ o, sendAll o = true) (hmeta : m.blockArea = t.area)
    (htotal : m.totalCompressedLen = t.record.length) (h : t.Reading k s) (pieces : List Bytes)
    (hne : ∀ piece ∈ pieces, piece ≠ []) (hpieces : t.pieces.flatten.drop k = pieces.flatten)
    (rest : List Arrival) :
    ∃ s', s.recvLoop c sendAll m false ((framesFrom t.stamp k pieces).map .chunk ++ rest) =
        s'.recvLoop c sendAll m false rest ∧ t.Reading (k + pieces.flatten.length) s' := by
  induction pieces generalizing k s with
  | nil => exact ⟨s, rfl, h⟩
  | cons piece pieces ih =>
    have hpiece := hne piece mem_cons_self
    rw [flatten_cons] at hpieces
    have hle : k + piece.length ≤ m.totalCompressedLen := by
      have hlength := congrArg length hpieces
      have hpos := length_pos_iff.mpr hpiece
      rw [length_drop, t.length_flatten_pieces, length_append] at hlength
      rw [htotal]
      omega
    obtain ⟨s', hrun, hread⟩ := ih (h.feedFrame hsend hmeta hpiece hpieces)
      (fun p hp => hne p (mem_cons_of_mem piece hp))
      (by rw [← drop_drop, hpieces, drop_left])
    refine ⟨s', ?_, ?_⟩
    · rw [← hrun, framesFrom, map_cons, cons_append, recvLoop, if_neg (by rw [h.running]; decide)]
      rw [readChunk_eq t.stamp hpiece hle]
      dsimp only [Stamp.frame]
      rw [if_neg (by simp)]
    · rw [flatten_cons, length_append, ← add_assoc]
      exact hread

end Transmission

/-! ### What is sent again -/

namespace NetworkChunkSource

variable {c : Codecs} {sendAll : ℕ → Bool} {s : NetworkChunkSource} {m : ChunkMeta} {record : Bytes}
  {front : ℕ} {gaps : List (ℕ × Bytes)} {d : Delivery}

/-- The stream has failed; what was pushed is a front part of the record. -/
structure Failed (record : Bytes) (d : Delivery) : Prop where
  outcome : ∃ reason, d.outcome = some (some reason)
  pushed : d.pushed.flatten <+: record
  nonempty : ∀ b ∈ d.pushed, b ≠ []

theorem failed_of_waiting (h : Waiting record front gaps d) (reason : String) :
    Failed record (d.finishStream (some reason)) := by
  rw [finishStream, if_neg (by rw [h.running]; decide)]
  exact ⟨⟨reason, rfl⟩, h.pushed.1, h.pushed.2⟩

theorem Failed.finishStream (h : Failed record d) (reason : Option String) :
    d.finishStream reason = d := by
  obtain ⟨reason', houtcome⟩ := h.outcome
  rw [Delivery.finishStream, houtcome]
  rfl

/-- Once the stream has failed, nothing changes. -/
theorem Failed.recvLoop (h : Failed record s.delivery) (digestSeen : Bool) (arrivals : List Arrival) :
    s.recvLoop c sendAll m digestSeen arrivals = s := by
  cases arrivals with
  | nil =>
    rw [NetworkChunkSource.recvLoop, fail, h.finishStream]
  | cons arrival rest =>
    obtain ⟨reason, houtcome⟩ := h.outcome
    have hdone : s.delivery.outcome.isSome = true := by rw [houtcome]; rfl
    exact if_pos hdone

theorem Failed.reconcile (h : Failed record s.delivery) : s.reconcile m = s := by
  unfold NetworkChunkSource.reconcile
  rw [fail, h.finishStream, h.finishStream, ite_self]

/-- The parser has begun a block that was sent again and will not be good, whatever comes. -/
structure Doomed (c : Codecs) (record : Bytes) (s : NetworkChunkSource) : Prop where
  begun : ∃ start p, s.Midway start p ∧ start ∈ s.delivery.resentOffsets ∧ 16 ≤ p.length ∧
    ¬negative (read p).compSize ∧ ¬negative (read p).uncSize ∧
    ∀ rest, ¬Accepts c (p ++ rest)
  waiting : ∃ front gaps, gaps ≠ [] ∧ Waiting record front gaps s.delivery

variable {offset : ℕ} {data block : Bytes} {resent : List Bytes} {order : List (ℕ × Bytes)} {intact : Prop}
  {s' : NetworkChunkSource} {stamp : Stamp c}

/-- A block that was sent again and is still not good. -/
theorem complete_of_resent {taken : ℕ} (hcrc : c.dataChecksum (block.drop 16) ≠ (read block).crc)
    (hresent : offset ∈ s.delivery.resentOffsets) :
    s.complete c sendAll block offset taken = (s.fail "integrity: resent block still corrupt", none) := by
  rw [complete, consumeBlock, if_neg hcrc, if_pos hresent]
  rfl

/-- The bytes that are taken for a block are rejected. -/
theorem crc_ne_of_not_accepts (hdata : ¬Accepts c data) (hcomp : ¬negative (read data).compSize)
    (hunc : ¬negative (read data).uncSize)
    (hn : n = 16 + (read data).compSize) (hlong : n ≤ data.length) :
    c.dataChecksum ((data.take n).drop 16) ≠ (read (data.take n)).crc := by
  intro hcrc
  have hlength : 16 ≤ (data.take n).length := by
    rw [length_take]
    omega
  have hread : read data = read (data.take n) := by
    have happend := read_append hlength (data.drop n)
    rwa [take_append_drop] at happend
  refine hdata ⟨hcomp, hunc, by omega, ?_⟩
  rw [drop_take, hn, Nat.add_sub_cancel_left, ← hn, ← hread] at hcrc
  exact hcrc

/-- After a round that ends the loop. -/
theorem feedBlocks_of_last_round (hne : data ≠ [])
    (hround : s.feedRound c sendAll data offset = (s', none)) :
    feedBlocks c sendAll data.length data offset s = s' := by
  obtain ⟨fuel, hfuel⟩ := exists_eq_succ_of_ne_zero (length_pos_iff.mpr hne).ne'
  rw [hfuel, feedBlocks, if_neg hne, hround]

/-- More bytes for a doomed block. -/
theorem Doomed.feedBlocks (h : s.Doomed c record) (hne : data ≠ [])
    (hs' : s.feedBlocks c sendAll data.length data offset = s') :
    s'.Doomed c record ∨ Failed record s'.delivery := by
  obtain ⟨start, p, hmid, hresent, hlong, hcomp, hunc, hreject⟩ := h.begun
  obtain ⟨front, gaps, hgaps, hwaiting⟩ := h.waiting
  have hp : p ≠ [] := length_pos_iff.mp (by omega)
  have hneed : needFor p = 16 + (read p).compSize := if_neg (by omega)
  have hround : s.feedRound c sendAll data offset = s.gather c sendAll data offset :=
    feedRound_of_begun hmid hp
  by_cases hshort : (p ++ data).length < needFor p
  · left
    obtain ⟨hdelivery, hmid'⟩ := feedBlocks_of_short hmid (fun hnil => absurd hnil hp) hround hshort le_rfl
    rw [hs'] at hdelivery hmid'
    have hread := read_append hlong data
    refine ⟨⟨start, p ++ data, hmid', hdelivery ▸ hresent, ?_, ?_, ?_, fun rest => ?_⟩, front, gaps, hgaps,
      hdelivery ▸ hwaiting⟩
    · rw [length_append]
      omega
    · rw [hread]
      exact hcomp
    · rw [hread]
      exact hunc
    · rw [append_assoc]
      exact hreject (data ++ rest)
  · right
    obtain ⟨more, rest, hdata, henough⟩ := exists_fill hmid.short.le (not_lt.mp hshort)
    have hread := read_append hlong more
    have hcrc := crc_ne_of_not_accepts (n := (p ++ more).length) (hreject more) (by rwa [hread])
      (by rwa [hread]) (by rw [henough, hneed, hread]) le_rfl
    rw [take_length] at hcrc
    have hnot : ¬s.parseNeed = 16 := by
      have hlt := hmid.short
      rw [hmid.need]
      omega
    have hgather : s.gather c sendAll data offset =
        (({ s with parseOff := start, parseBuf := p ++ more } : NetworkChunkSource).fail
          "integrity: resent block still corrupt", none) := by
      rw [hdata, gather_of_enough hmid (fun hnil => absurd hnil hp) henough, if_neg hnot]
      exact complete_of_resent hcrc hresent
    rw [← hs', feedBlocks_of_last_round hne (hround.trans hgather)]
    exact failed_of_waiting hwaiting _

/-- A block that was sent again comes damaged. -/
theorem feedBlocks_of_damaged {bytes : Bytes} {start : ℕ}
    (hmid : s.Midway start []) (hwaiting : Waiting record front gaps s.delivery) (hgaps : gaps ≠ [])
    (hresent : start ∈ s.delivery.resentOffsets) (hblock : Sized block)
    (hdamaged : Damaged c block bytes) (hs' : s.feedBlocks c sendAll bytes.length bytes start = s') :
    s'.Doomed c record ∨ Failed record s'.delivery := by
  have hlength := hdamaged.length
  have hsum := hblock.length
  have hreject := hdamaged.detected []
  rw [append_nil] at hreject
  have hne : bytes ≠ [] := length_pos_iff.mp (by omega)
  have hstart : s.parseNeed = 16 ∧ s.parseBuf = [] ∧ 16 ≤ bytes.length :=
    ⟨hmid.need, hmid.buf, by omega⟩
  by_cases hneg : negative (read bytes).compSize ∨ negative (read bytes).uncSize
  · right
    have hround : s.feedRound c sendAll bytes start = (s.fail negativeSizes, none) := by
      rw [feedRound, if_pos hstart]
      exact if_pos hneg
    rw [← hs', feedBlocks_of_last_round hne hround]
    exact failed_of_waiting hwaiting _
  obtain ⟨hcomp, hunc⟩ := not_or.mp hneg
  by_cases hfull : 16 + (read bytes).compSize ≤ bytes.length
  · -- a shorter block than it was, or as long: its checksum is wrong
    right
    have hround : s.feedRound c sendAll bytes start =
        (s.fail "integrity: resent block still corrupt", none) := by
      rw [feedRound, if_pos hstart]
      dsimp only
      rw [if_neg hneg, if_pos hfull]
      exact complete_of_resent (crc_ne_of_not_accepts hreject hcomp hunc rfl hfull) hresent
    rw [← hs', feedBlocks_of_last_round hne hround]
    exact failed_of_waiting hwaiting _
  · -- a longer one: the parser waits for the rest of it
    left
    have hsized : Sized (bytes ++ replicate (16 + (read bytes).compSize - bytes.length) 0) := by
      have hread := read_append (show 16 ≤ bytes.length by omega)
        (replicate (16 + (read bytes).compSize - bytes.length) 0)
      refine ⟨by rwa [hread], by rwa [hread], ?_⟩
      rw [hread, length_append, length_replicate]
      omega
    obtain ⟨hdelivery, hmid'⟩ := feedBlocks_inside hmid (nil_append bytes) hsized
      (length_pos_iff.mp (by rw [length_replicate]; omega)) le_rfl
    rw [length_nil, add_zero, hs'] at hdelivery hmid'
    refine ⟨⟨start, bytes, hmid', hdelivery ▸ hresent, by omega, hcomp, hunc, hdamaged.detected⟩, front,
      gaps, hgaps, hdelivery ▸ hwaiting⟩

/-- A frame of the block area, after the digest. -/
theorem recvLoop_resend (hrun : s.delivery.outcome = none) (hne : data ≠ [])
    (harea : offset + data.length ≤ m.blockArea) (htotal : m.blockArea ≤ m.totalCompressedLen)
    (rest : List Arrival) :
    s.recvLoop c sendAll m true (.chunk (stamp.frame offset data) :: rest) =
      let s' := s.feedBlocks c sendAll data.length data offset
      if s'.clean then s'.reconcile m else s'.recvLoop c sendAll m true rest := by
  rw [recvLoop, if_neg (by rw [hrun]; decide)]
  rw [readChunk_eq stamp hne (harea.trans htotal)]
  dsimp only [Stamp.frame]
  have hpos := length_pos_iff.mpr hne
  rw [feedFrame, if_neg hne, if_neg (show ¬m.blockArea ≤ offset by omega), if_neg (Nat.not_lt.mpr harea)]
  simp only [true_and]

/-- A doomed or failed stream does not end healthy after a frame. -/
theorem failed_after_frame (h : s.Doomed c record ∨ Failed record s.delivery) {rest : List Arrival}
    (hrest : Failed record (s.recvLoop c sendAll m true rest).delivery) :
    Failed record (if s.clean then s.reconcile m else s.recvLoop c sendAll m true rest).delivery := by
  split
  · next hclean =>
    rcases h with hdoomed | hfailed
    · obtain ⟨front, gaps, hgaps, hwaiting⟩ := hdoomed.waiting
      exact absurd (hwaiting.holeLen_eq_nil_iff.mp hclean.1) hgaps
    · rw [hfailed.reconcile]
      exact hfailed
  · exact hrest

/-- Whatever frames follow, a doomed block ends the stream with a failure. -/
theorem failed_of_doomed (htotal : m.blockArea ≤ m.totalCompressedLen)
    (hframes : Forall₂ (fun gap bytes => bytes ≠ [] ∧ gap.1 + bytes.length ≤ m.blockArea) order resent)
    (h : s.Doomed c record ∨ Failed record s.delivery) :
    Failed record (s.recvLoop c sendAll m true (resendFrames stamp order resent)).delivery := by
  induction hframes generalizing s with
  | nil =>
    rcases h with hdoomed | hfailed
    · obtain ⟨front, gaps, -, hwaiting⟩ := hdoomed.waiting
      exact failed_of_waiting hwaiting _
    · rw [hfailed.recvLoop]
      exact hfailed
  | @cons gap bytes order resent hframe hframes ih =>
    rcases h with hdoomed | hfailed
    · obtain ⟨front, gaps, -, hwaiting⟩ := hdoomed.waiting
      rw [resendFrames_cons, recvLoop_resend hwaiting.running hframe.1 hframe.2 htotal]
      have hnext : (s.feedBlocks c sendAll bytes.length bytes gap.1).Doomed c record ∨ _ :=
        hdoomed.feedBlocks hframe.1 rfl
      exact failed_after_frame hnext (ih hnext)
    · rw [hfailed.recvLoop]
      exact hfailed

/-- The frames of blocks that are sent again lie in the block area. -/
theorem frames_in_area
    (hspec : Forall₂ (fun gap bytes => bytes = gap.2 ∨ Damaged c gap.2 bytes) order resent)
    (hwhole : ∀ gap ∈ order, WholeBlock c gap.2 ∧ gap.1 + gap.2.length ≤ m.blockArea) :
    Forall₂ (fun gap bytes => bytes ≠ [] ∧ gap.1 + bytes.length ≤ m.blockArea) order resent := by
  induction hspec with
  | nil => exact .nil
  | @cons gap bytes order resent hbytes hspec ih =>
    obtain ⟨hblock, hle⟩ := hwhole gap mem_cons_self
    have hsum := hblock.length
    have hlength := length_of_arrived hbytes
    refine .cons ⟨length_pos_iff.mp (by omega), by omega⟩ (ih fun g hg => ?_)
    exact hwhole g (mem_cons_of_mem gap hg)

/-- How a stream ends: the record and health, or a front part of it and a failure. -/
structure Ends (record : Bytes) (intact : Prop) (d : Delivery) : Prop where
  healthy : intact → d.outcome = some none ∧ d.pushed.flatten = record
  failed : ¬intact → ∃ reason, d.outcome = some (some reason)
  pushed : d.pushed.flatten <+: record
  nonempty : ∀ b ∈ d.pushed, b ≠ []

theorem Failed.ends (h : Failed record d) (hnot : ¬intact) :
    Ends record intact d :=
  ⟨fun hintact => absurd hintact hnot, fun _ => h.outcome, h.pushed, h.nonempty⟩

theorem ends_of_waiting (h : Waiting record record.length [] s.delivery)
    (htotal : m.totalCompressedLen = record.length) (hintact : intact) :
    Ends record intact (s.reconcile m).delivery := by
  have hreceived := h.received
  rw [reconcile, if_neg (by rw [htotal, hreceived]; simp)]
  rw [finishStream, if_neg (by rw [h.running]; decide)]
  have hall := h.pushed_eq
  rw [take_length] at hall
  exact ⟨fun _ => ⟨rfl, hall⟩, fun hnot => absurd hintact hnot, h.pushed.1, h.pushed.2⟩

/-- Between blocks, the stream is clean once no gap is left. -/
theorem clean_iff (h : Waiting record front gaps s.delivery) (hbuf : s.parseBuf = [])
    (hneed : s.parseNeed = 16) : s.clean ↔ gaps = [] := by
  rw [clean, hbuf, hneed, h.holeLen_eq_nil_iff]
  exact and_iff_left (by decide)

/-- **What is sent again**: the gaps are filled, or the stream fails. -/
theorem recvLoop_resends (htotal : m.totalCompressedLen = record.length)
    (harea : m.blockArea ≤ m.totalCompressedLen)
    (hspec : Forall₂ (fun gap bytes => bytes = gap.2 ∨ Damaged c gap.2 bytes) order resent)
    (hwhole : ∀ gap ∈ order, WholeBlock c gap.2 ∧ gap.1 + gap.2.length ≤ m.blockArea)
    (hbuf : s.parseBuf = []) (hneed : s.parseNeed = 16)
    (h : Waiting record record.length order s.delivery) :
    Ends record (resent = order.map snd) (if s.clean then s.reconcile m else
      s.recvLoop c sendAll m true (resendFrames stamp order resent)).delivery := by
  induction hspec generalizing s with
  | nil =>
    rw [if_pos ((clean_iff h hbuf hneed).mpr rfl)]
    exact ends_of_waiting h htotal rfl
  | @cons gap bytes order resent hbytes hspec ih =>
    obtain ⟨hblock, hle⟩ := hwhole gap mem_cons_self
    have hothers : ∀ g ∈ order, WholeBlock c g.2 ∧ g.1 + g.2.length ≤ m.blockArea :=
      fun g hg => hwhole g (mem_cons_of_mem gap hg)
    have hframe := (forall₂_cons.mp (frames_in_area (.cons hbytes hspec) hwhole)).1
    have hmid : s.Midway gap.1 [] := midway_nil hbuf hneed
    have hne : gap :: order ≠ [] := cons_ne_nil gap order
    rw [if_neg fun hclean => hne ((clean_iff h hbuf hneed).mp hclean), resendFrames_cons,
      recvLoop_resend h.running hframe.1 hframe.2 harea]
    rcases hbytes with rfl | hdamaged
    · -- the block comes intact
      have hconsume : consumeAll c sendAll [gap.2] gap.1 s.delivery =
          some (s.delivery.deliverBytes gap.2 gap.1) := by
        rw [consumeAll, consumeBlock, if_pos hblock.crc]
        rfl
      have hdata : [] ++ gap.2 = [gap.2].flatten ++ [] := by simp
      obtain ⟨hdelivery, hmid'⟩ := feedBlocks_spec hmid hdata
        (forall_mem_singleton.mpr hblock.toSized) (.inl rfl) hconsume le_rfl
      have hwaiting := h.repair
      rw [← hdelivery] at hwaiting
      have hends := ih hothers hmid'.buf hmid'.need hwaiting
      simpa only [map_cons, cons.injEq, true_and, length_nil, add_zero] using hends
    · -- it is damaged again
      have hnext : (s.feedBlocks c sendAll bytes.length bytes gap.1).Doomed c record ∨ _ :=
        feedBlocks_of_damaged hmid h hne (h.resent mem_cons_self) hblock.toSized hdamaged rfl
      refine (failed_after_frame hnext (failed_of_doomed harea (frames_in_area hspec hothers) hnext)).ends
        fun hintact => ?_
      rw [map_cons, cons.injEq] at hintact
      refine hdamaged.detected [] ?_
      rw [append_nil, hintact.1]
      refine ⟨hblock.comp, hblock.unc, hblock.length.ge, ?_⟩
      rw [take_of_length_le (by rw [length_drop, hblock.length]; omega)]
      exact hblock.crc

end NetworkChunkSource

namespace Transmission

variable {c : Codecs} {t : Transmission c} {sendAll : ℕ → Bool} {m : ChunkMeta}
  {record : Bytes} {intact : Prop} {d : Delivery}

/-- The damaged blocks are blocks of the record. -/
theorem mem_damagedFrom (h : gap ∈ damagedFrom offset bs) :
    (∃ b ∈ bs, b.1 = gap.2) ∧ gap.1 + gap.2.length ≤ offset + (bs.map fst).flatten.length := by
  induction bs generalizing offset with
  | nil => cases h
  | cons b bs ih =>
    rw [map_cons, flatten_cons, length_append]
    rcases mem_append.mp h with h | h
    · have hgap : gap = (offset, b.1) := by
        split at h
        · cases h
        · exact mem_singleton.mp h
      subst hgap
      refine ⟨⟨b, mem_cons_self, rfl⟩, ?_⟩
      dsimp only
      omega
    · obtain ⟨⟨b', hb', heq⟩, hle⟩ := ih h
      exact ⟨⟨b', mem_cons_of_mem b hb', heq⟩, by omega⟩

/-- **The receiving thread**: it pushes the record and ends healthy if what was sent again is intact, and
fails otherwise; it never pushes anything but the record from its beginning. -/
theorem recvLoop_arrivals (t : Transmission c) (hsend : ∀ o, sendAll o = true)
    (htotal : m.totalCompressedLen = t.record.length) (htrailer : m.trailerLen = t.trailer.length) :
    Ends t.record t.Intact (recvLoop c sendAll m false {} t.arrivals).delivery := by
  have hlength : t.record.length = t.area + t.trailer.length := length_append
  have harea : m.blockArea = t.area := by
    rw [ChunkMeta.blockArea, htotal, htrailer]
    split <;> omega
  obtain ⟨s, hrun, hread⟩ := recvLoop_frames hsend harea htotal t.reading_start t.pieces t.pieces_ne_nil
    rfl (.digest :: resendFrames t.stamp t.order t.resent)
  rw [arrivals, hrun]
  rw [zero_add, t.length_flatten_pieces] at hread
  cases hread with
  | blocks done rest q hblocks hk hinside hq hmid hwaiting => omega
  | trailer hbehind hbuf hneed hwaiting =>
    replace hwaiting := hwaiting.perm t.order_perm.symm
    have hwhole : ∀ gap ∈ t.order, WholeBlock c gap.2 ∧ gap.1 + gap.2.length ≤ m.blockArea := by
      intro gap hgap
      obtain ⟨⟨b, hb, heq⟩, hle⟩ := mem_damagedFrom (t.order_perm.mem_iff.mp hgap)
      rw [harea, ← heq]
      rw [zero_add, ← heq] at hle
      exact ⟨t.whole b hb, hle⟩
    rw [recvLoop, if_neg (by rw [hwaiting.running]; decide), if_neg (by decide)]
    exact recvLoop_resends htotal (by omega) t.resent_spec hwhole hbuf hneed hwaiting

/-- The queue before the receiving thread has pushed anything. -/
def queueOf (d : Delivery) : ByteQueue where
  todo := d.pushed
  failure := d.outcome.join

/-- What `pull` may have answered in a stream of a record. -/
structure Reassembled (record : Bytes) (intact : Prop) (queueByteLimit : ℕ) (q : ByteQueue) : Prop where
  /-- no byte is corrupted or displaced -/
  inOrder : q.delivered <+: record
  /-- an intact stream never fails, and its end comes behind the whole record -/
  healthy : intact → q.streamFailed = false ∧ (∀ a ∈ q.answers, a.2 ≠ none) ∧
    ∀ a ∈ q.answers, a.2 = some [] → 0 < a.1 → q.delivered = record
  /-- any other stream fails in the end, and never tells a clean one -/
  failed : ¬intact → (q.streamDone = true → q.streamFailed = true) ∧
    ∀ a ∈ q.answers, a.2 = some [] → a.1 = 0
  /-- one of the two threads can go on -/
  live : (∃ q', q.step queueByteLimit .push = some q') ∨ (∃ q', q.step queueByteLimit .finish = some q') ∨
    ∀ n, 0 < n → ∃ q', q.step queueByteLimit (.pull n) = some q'

theorem inv_queueOf (h : Ends record intact d) : (queueOf d).Inv d.pushed.flatten :=
  ⟨.inl rfl, aligned_zero (by simp [queueOf]), h.nonempty, fun hdone => absurd hdone (by simp [queueOf]),
    fun _ => rfl, by simp [queueOf], by simp [queueOf]⟩

theorem reassembled_of_inv {q : ByteQueue} (h : Ends record intact d) (hq : q.Inv d.pushed.flatten)
    (hfailure : q.failure = d.outcome.join) (queueByteLimit : ℕ) :
    Reassembled record intact queueByteLimit q := by
  refine ⟨?_, fun hintact => ?_, fun hnot => ?_, hq.live queueByteLimit⟩
  · rcases hq.order with horder | ⟨-, -, hprefix⟩
    · exact (horder ▸ prefix_append _ _).trans h.pushed
    · exact hprefix.trans h.pushed
  · obtain ⟨houtcome, hall⟩ := h.healthy hintact
    have hhealthy : q.streamFailed = false := by
      cases hdone : q.streamDone with
      | false => exact hq.running hdone
      | true =>
        rw [(hq.done hdone).2, hfailure, houtcome]
        rfl
    refine ⟨hhealthy, fun a ha hnone => ?_, fun a ha hnil hpos => ?_⟩
    · rw [(hq.refused a ha hnone).2] at hhealthy
      cases hhealthy
    · obtain ⟨hdone, -, hqueue⟩ := hq.ended a ha hnil hpos
      rcases hq.order with horder | ⟨hfailed, -⟩
      · rw [hqueue, (hq.done hdone).1, hall] at horder
        simpa using horder
      · rw [hhealthy] at hfailed
        cases hfailed
  · obtain ⟨reason, houtcome⟩ := h.failed hnot
    have hfails : q.streamDone = true → q.streamFailed = true := by
      intro hdone
      rw [(hq.done hdone).2, hfailure, houtcome]
      rfl
    refine ⟨hfails, fun a ha hnil => ?_⟩
    by_contra hpos
    obtain ⟨hdone, hhealthy, -⟩ := hq.ended a ha hnil (pos_of_ne_zero hpos)
    rw [hfails hdone] at hhealthy
    cases hhealthy

/-- **A record is put together again.**  However it is cut into frames, whichever blocks come damaged at
first, in whatever order they are sent again, and however the two threads take turns: `pull` hands out the
record from its beginning and nothing else; it hands out all of it and ends healthy if what was sent again is
intact, and fails otherwise.  The end is told after a bounded number of steps. -/
theorem reassembled (t : Transmission c) (hsend : ∀ o, sendAll o = true)
    (htotal : m.totalCompressedLen = t.record.length) (htrailer : m.trailerLen = t.trailer.length)
    (queueByteLimit : ℕ) :
    ∃ bound, ∀ ops q, run (step queueByteLimit)
        (queueOf (recvLoop c sendAll m false {} t.arrivals).delivery) ops = some q →
      Reassembled t.record t.Intact queueByteLimit q ∧
        ((∀ n, .pull n ∈ ops → 0 < n) → bound < ops.length → q.AtEnd) := by
  have hends := t.recvLoop_arrivals hsend htotal htrailer
  refine ⟨(queueOf (recvLoop c sendAll m false {} t.arrivals).delivery).work, fun ops q hrun => ?_⟩
  obtain ⟨hinv, hfailure, hwork⟩ := (inv_queueOf hends).run hrun
  refine ⟨reassembled_of_inv hends hinv hfailure queueByteLimit, fun hpos hlong => ?_⟩
  rcases hwork hpos with hle | hend
  · omega
  · exact hend

/-- A block of one byte, with the checksum of `FlyStream.zeroCodecs`. -/
def byteBlock (crc : UInt64) (payload : UInt8) : Bytes :=
  (⟨1, 1, crc⟩ : BlockHeader).bytes ++ [payload]

/-- Two blocks in three frames, one with a checksum; the first block comes damaged, and intact when it is sent
again. -/
def twoBlocks : Transmission FlyStream.zeroCodecs where
  blocks := [(byteBlock 1 1, byteBlock 1 2), (byteBlock 3 3, byteBlock 3 3)]
  trailer := [5, 5, 5]
  whole := by
    refine forall_mem_cons.mpr ⟨?_, forall_mem_singleton.mpr ?_⟩
    all_goals exact { comp := by decide, unc := by decide, length := by decide, crc := by decide }
  arrived := by
    refine forall_mem_cons.mpr ⟨Or.inr ⟨?_, by decide⟩, forall_mem_singleton.mpr (Or.inl rfl)⟩
    refine (damaged_iff_crc_ne ?_ (by decide)).mpr (by decide)
    exact { comp := by decide, unc := by decide, length := by decide }
  pieces := [(byteBlock 1 2).take 10, (byteBlock 1 2).drop 10 ++ (byteBlock 3 3).take 16,
    (byteBlock 3 3).drop 16 ++ [5, 5, 5]]
  pieces_ne_nil := by decide
  flatten_pieces := by decide
  order := [(0, byteBlock 1 1)]
  order_perm := by decide
  resent := [byteBlock 1 1]
  resent_spec := .cons (Or.inl rfl) .nil
  stamp :=
    { crc := fun offset raw => if offset = 10 then FlyStream.zeroCodecs.dataChecksum raw else 0
      spec := fun _ _ => (ite_eq_or_eq _ _ _).symm }

/-- The two blocks, through a queue of twenty bytes. -/
theorem reassembled_twoBlocks : twoBlocks.Intact ∧ ∃ bound, ∀ ops q, run (step 20)
        (queueOf (recvLoop FlyStream.zeroCodecs (fun _ => true)
          { totalCompressedLen := 37, trailerLen := 3 } false {} twoBlocks.arrivals).delivery) ops = some q →
      Reassembled twoBlocks.record twoBlocks.Intact 20 q ∧
        ((∀ n, .pull n ∈ ops → 0 < n) → bound < ops.length → q.AtEnd) :=
  ⟨rfl, twoBlocks.reassembled (fun _ => rfl) (by decide) rfl 20⟩

end Transmission

end Fly.Storage
