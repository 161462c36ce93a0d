import Fly.Lib.Run
import Fly.Lib.Table
import Mathlib.Data.Finset.Card

/-!
# The clean-up barrier after a merge (`pending_merge_cleanups_` in `agent/cpp/master_agent.cpp`)

`cleanup_after_merge` registers how many workers are connected, broadcasts the clean-up and waits until
that many answers were counted.  The record is a bare pair of counters: an acknowledgement of any worker
adds one, and so does the death of any worker, for every record that is still open.

* `MergeCleanups` — the records and the connection table, with one function per handler;
* `CleanupRound` — what the barrier is about, for one path: the workers connected when it was registered,
  those among them that acknowledged or were declared dead since, and how many counts came from anybody
  else or from the same worker again;
* `cleanup_barrier_iff` — **the barrier opens too early exactly if the count that fills it comes after
  such a stray count, or is one.**

Registration, from the size of the connection table to the new record, is one step here.
-/

namespace Fly.Agent

open Fly.Lib Option Finset

/-! ### The records and the handlers -/

structure PendingMergeCleanup where
  expectedCount : ℕ := 0
  receivedCount : ℕ := 0
  deriving DecidableEq

open PendingMergeCleanup

def PendingMergeCleanup.done (p : PendingMergeCleanup) : Bool :=
  decide (p.expectedCount ≤ p.receivedCount)

structure MergeCleanups where
  pending : Table String PendingMergeCleanup := ∅
  workerToConn : Table ℕ ℕ := ∅

namespace MergeCleanups

variable (s : MergeCleanups)

/-- The registration in `cleanup_after_merge`: a record that is still open is kept as it is. -/
def registerBarrier (path : String) : MergeCleanups :=
  let fresh := { s with
    pending := s.pending.insert path { expectedCount := s.workerToConn.entries.length } }
  match s.pending.lookup path with
  | none => fresh
  | some p => if p.done then fresh else s

/-- `on_merge_cleanup_ack`: an unknown path is ignored. -/
def onMergeCleanupAck (path : String) : MergeCleanups :=
  { s with
    pending := Table.modify s.pending path fun p => { p with receivedCount := p.receivedCount + 1 } }

/-- The part of `settle_pending_for_dead_worker` about clean-ups: every record, up to its bound. -/
def settleMergeCleanups : MergeCleanups :=
  { s with
    pending := Table.mapValues s.pending fun p =>
      if p.receivedCount < p.expectedCount then { p with receivedCount := p.receivedCount + 1 }
      else p }

/-- The end of `cleanup_after_merge`: the wait is over once the record is full, and it is erased. -/
def finishBarrier (path : String) : MergeCleanups :=
  match s.pending.lookup path with
  | none => s
  | some p => if p.done then { s with pending := s.pending.erase path } else s

end MergeCleanups

inductive CleanupEvent where
  | register (path : String)
  | ack (path : String) (worker : ℕ)
  | death (worker : ℕ)
  | finish (path : String)
  | join (worker conn : ℕ)
  | leave (worker : ℕ)
  deriving DecidableEq

def MergeCleanups.step (s : MergeCleanups) : CleanupEvent → MergeCleanups
  | .register path => s.registerBarrier path
  | .ack path _ => s.onMergeCleanupAck path
  | .death _ => s.settleMergeCleanups
  | .finish path => s.finishBarrier path
  | .join worker conn => { s with workerToConn := s.workerToConn.insert worker conn }
  | .leave worker => { s with workerToConn := s.workerToConn.erase worker }

/-! ### The round of one path -/

/-- The barrier of one path, as its purpose has it. -/
structure CleanupRound where
  /-- connected when the barrier was registered -/
  members : Finset ℕ := ∅
  /-- members that acknowledged or were declared dead since -/
  accounted : Finset ℕ := ∅
  /-- acknowledgements and deaths since then of anybody else, or of a member for the second time -/
  stray : ℕ := 0

open CleanupRound

variable (r : CleanupRound) (w : ℕ)

/-- One acknowledgement or death of `worker`. -/
def CleanupRound.count (worker : ℕ) : CleanupRound :=
  if worker ∈ r.members ∧ worker ∉ r.accounted then
    { r with accounted := insert worker r.accounted }
  else { r with stray := r.stray + 1 }

theorem CleanupRound.count_members : (r.count w).members = r.members := by
  unfold count
  split <;> rfl

theorem CleanupRound.accounted_subset_count : r.accounted ⊆ (r.count w).accounted := by
  unfold count
  split
  · exact subset_insert w r.accounted
  · exact Finset.Subset.refl _

variable {r w}

theorem CleanupRound.count_accounted_subset (h : r.accounted ⊆ r.members)
    (w : ℕ) : (r.count w).accounted ⊆ (r.count w).members := by
  unfold count
  split
  case isTrue hw => exact insert_subset hw.1 h
  case isFalse => exact h

/-- Every count adds one to the accounted members or to the stray counts. -/
theorem CleanupRound.count_total (r : CleanupRound) (w : ℕ) :
    (r.count w).accounted.card + (r.count w).stray = r.accounted.card + r.stray + 1 := by
  unfold count
  split
  case isTrue hw =>
    rw [card_insert_of_notMem hw.2]
    show r.accounted.card + 1 + r.stray = _
    omega
  case isFalse =>
    show r.accounted.card + (r.stray + 1) = _
    omega

/-- The count that fills the record completes the members exactly if neither it nor an earlier one was
stray. -/
theorem CleanupRound.members_subset_count_iff (h : r.accounted ⊆ r.members)
    (hfull : r.accounted.card + r.stray + 1 = r.members.card) :
    (r.count w).members ⊆ (r.count w).accounted ↔ r.stray = 0 ∧ w ∈ r.members ∧ w ∉ r.accounted := by
  have hsub := count_accounted_subset h w
  have hcard : (r.count w).members ⊆ (r.count w).accounted ↔
      r.members.card ≤ (r.count w).accounted.card := by
    rw [← count_members r w]
    constructor
    · exact card_le_card
    · exact fun hle => (eq_of_subset_of_card_le hsub hle).symm.subset
  rw [hcard]
  unfold count
  split
  case isTrue hw =>
    rw [card_insert_of_notMem hw.2]
    constructor
    · intro hle
      exact ⟨by omega, hw⟩
    · omega
  case isFalse hw =>
    show r.members.card ≤ r.accounted.card ↔ _
    constructor
    · omega
    · rintro ⟨-, hmem⟩
      exact absurd hmem hw

/-- The records together with the round of one path. -/
structure CleanupBarrier where
  cleanups : MergeCleanups := {}
  round : CleanupRound := {}

namespace CleanupBarrier

variable (path : String) (b : CleanupBarrier) (e : CleanupEvent)

def entry : Option PendingMergeCleanup := b.cleanups.pending.lookup path

/-- A registration that makes a new record starts a new round. -/
def startsRound : Bool :=
  match b.entry path with
  | none => true
  | some p => p.done

def nextRound : CleanupEvent → CleanupRound
  | .register p =>
    if p = path ∧ b.startsRound path = true then
      { members := b.cleanups.workerToConn.keys.toFinset }
    else b.round
  | .ack p worker => if p = path ∧ (b.entry path).isSome then b.round.count worker else b.round
  | .death worker => if (b.entry path).isSome then b.round.count worker else b.round
  | _ => b.round

def step : CleanupBarrier :=
  { cleanups := b.cleanups.step e, round := b.nextRound path e }

/-- The record is full only when every member is accounted for. -/
def Sound : Prop :=
  ∀ p, b.entry path = some p → p.done = true → b.round.members ⊆ b.round.accounted

/-- The worker whose acknowledgement or death the event counts in the record of the path. -/
def counts : CleanupEvent → Option ℕ
  | .ack p worker => if p = path then some worker else none
  | .death worker => some worker
  | _ => none

/-- If the event fills the record, then it accounts for a member that was still missing, and every
earlier count of the round did so too. -/
def Safe : Prop :=
  ∀ p worker, b.entry path = some p → counts path e = some worker → p.receivedCount + 1 = p.expectedCount →
      b.round.stray = 0 ∧ worker ∈ b.round.members ∧ worker ∉ b.round.accounted

/-! ### One path at a time -/

theorem entry_register (p : String) : (b.step path (.register p)).entry path =
      if p = path ∧ b.startsRound path = true then
        some { expectedCount := b.cleanups.workerToConn.entries.length }
      else b.entry path := by
  simp only [step, entry, MergeCleanups.step, MergeCleanups.registerBarrier]
  by_cases hp : p = path
  · subst hp
    simp only [startsRound, entry, true_and]
    cases hl : b.cleanups.pending.lookup p with
    | none => simp
    | some old => cases hd : old.done <;> simp [hl, hd]
  · have hne : path ≠ p := fun h => hp h.symm
    simp only [hp, false_and, if_false]
    cases hl : b.cleanups.pending.lookup p with
    | none => simp [hne]
    | some old => cases hd : old.done <;> simp [hne, hd]

theorem entry_ack (p : String) (w : ℕ) : (b.step path (.ack p w)).entry path =
      if p = path then
        (b.entry path).map fun e => { e with receivedCount := e.receivedCount + 1 }
      else b.entry path := by
  have hlook := Table.lookup_modify b.cleanups.pending p
    (fun e => { e with receivedCount := e.receivedCount + 1 }) path
  by_cases hp : p = path
  · subst hp
    exact hlook
  · rw [if_neg fun h => hp h.symm] at hlook
    rw [if_neg hp]
    exact hlook

theorem entry_death (w : ℕ) : (b.step path (.death w)).entry path = (b.entry path).map fun e =>
      if e.receivedCount < e.expectedCount then { e with receivedCount := e.receivedCount + 1 }
      else e :=
  Table.lookup_mapValues b.cleanups.pending _ path

theorem entry_finish (p : String) : (b.step path (.finish p)).entry path = b.entry path ∨
      (b.step path (.finish p)).entry path = none := by
  simp only [step, entry, MergeCleanups.step, MergeCleanups.finishBarrier]
  cases hl : b.cleanups.pending.lookup p with
  | none => exact .inl rfl
  | some old =>
    cases hd : old.done with
    | false =>
      simp [hd]
    | true =>
      simp only [hd, if_true]
      by_cases hp : path = p
      · subst hp
        exact .inr (AList.lookup_erase _ _)
      · exact .inl (AList.lookup_erase_ne hp)

/-- **What an event does to the record**: nothing, or it goes away; it begins a round; or it is counted. -/
theorem step_cases : (((b.step path e).entry path = b.entry path ∨ (b.step path e).entry path = none) ∧
      (b.step path e).round = b.round ∧ ((b.entry path).isSome → counts path e = none)) ∨
    ((b.step path e).entry path = some { expectedCount := b.cleanups.workerToConn.entries.length } ∧
      (b.step path e).round = { members := b.cleanups.workerToConn.keys.toFinset } ∧
      counts path e = none) ∨
    ∃ w p p', counts path e = some w ∧ b.entry path = some p ∧ (b.step path e).entry path = some p' ∧
      p'.expectedCount = p.expectedCount ∧
      (p.receivedCount < p.expectedCount → p'.receivedCount = p.receivedCount + 1) ∧
      (p.expectedCount ≤ p.receivedCount → p.expectedCount ≤ p'.receivedCount) ∧
      (b.step path e).round = b.round.count w := by
  cases e with
  | register p =>
    have hentry := entry_register path b p
    by_cases hp : p = path ∧ b.startsRound path = true
    · exact .inr (.inl ⟨hentry.trans (if_pos hp), if_pos hp, rfl⟩)
    · exact .inl ⟨.inl (hentry.trans (if_neg hp)), if_neg hp, fun _ => rfl⟩
  | ack p w =>
    have hentry := entry_ack path b p w
    by_cases hp : p = path
    · rw [if_pos hp] at hentry
      cases ho : b.entry path with
      | none =>
        rw [ho, map_none] at hentry
        exact .inl ⟨.inr hentry, if_neg (by simp [ho]), nofun⟩
      | some old =>
        rw [ho, map_some] at hentry
        exact .inr (.inr ⟨w, old, _, if_pos hp, rfl, hentry, rfl, fun _ => rfl, Nat.le_succ_of_le,
          if_pos ⟨hp, by simp [ho]⟩⟩)
    · exact .inl ⟨.inl (hentry.trans (if_neg hp)), if_neg fun hc => hp hc.1, fun _ => if_neg hp⟩
  | death w =>
    have hentry := entry_death path b w
    cases ho : b.entry path with
    | none =>
      rw [ho, map_none] at hentry
      exact .inl ⟨.inr hentry, if_neg (by simp [ho]), nofun⟩
    | some old =>
      rw [ho, map_some] at hentry
      refine .inr (.inr ⟨w, old, _, rfl, rfl, hentry, ?_, fun hlt => ?_, fun hle => ?_,
        if_pos (by simp [ho])⟩)
      · split <;> rfl
      · rw [if_pos hlt]
      · rw [if_neg (by omega)]
        exact hle
  | finish p => exact .inl ⟨entry_finish path b p, rfl, fun _ => rfl⟩
  | join w c | leave w => exact .inl ⟨.inl rfl, rfl, fun _ => rfl⟩

/-! ### What holds regardless -/

/-- The record counts the members, and while it is open every count is either a member accounted for or
a stray one. -/
structure CleanupInv : Prop where
  expected : ∀ p, b.entry path = some p → p.expectedCount = b.round.members.card
  accounted : b.round.accounted ⊆ b.round.members
  received : ∀ p, b.entry path = some p → p.receivedCount < p.expectedCount →
    p.receivedCount = b.round.accounted.card + b.round.stray

variable {path b}

theorem cleanupInv_empty : CleanupInv path {} :=
  ⟨fun _ h => (nomatch h), Finset.Subset.refl _, fun _ h => (nomatch h)⟩

variable {b' : CleanupBarrier} {p : PendingMergeCleanup}

theorem CleanupInv.of_unchanged (h : CleanupInv path b)
    (hentry : b'.entry path = b.entry path ∨ b'.entry path = none) (hround : b'.round = b.round) :
    CleanupInv path b' := by
  refine ⟨?_, by rw [hround]; exact h.accounted, ?_⟩
  · intro p hp
    rcases hentry with heq | heq
    · rw [hround]
      exact h.expected p (by rw [← heq, hp])
    · rw [heq] at hp
      cases hp
  · intro p hp
    rcases hentry with heq | heq
    · rw [hround]
      exact h.received p (by rw [← heq, hp])
    · rw [heq] at hp
      cases hp

/-- One count, in an open record or past its bound. -/
theorem CleanupInv.of_count (h : CleanupInv path b) (hp : b.entry path = some p)
    (hentry : ∃ p', b'.entry path = some p' ∧ p'.expectedCount = p.expectedCount ∧
      (p.receivedCount < p.expectedCount → p'.receivedCount = p.receivedCount + 1) ∧
      (p.expectedCount ≤ p.receivedCount → p.expectedCount ≤ p'.receivedCount))
    (hround : b'.round = b.round.count w) : CleanupInv path b' := by
  obtain ⟨p', hp', hexp, hopen, hdone⟩ := hentry
  refine ⟨?_, ?_, ?_⟩
  · intro q hq
    obtain rfl : p' = q := Option.some.inj (hp'.symm.trans hq)
    rw [hround, count_members, hexp, h.expected p hp]
  · rw [hround]
    exact count_accounted_subset h.accounted w
  · intro q hq hlt
    obtain rfl : p' = q := Option.some.inj (hp'.symm.trans hq)
    rw [hround, count_total]
    rcases Nat.lt_or_ge p.receivedCount p.expectedCount with hlt' | hge
    · rw [hopen hlt', h.received p hp hlt']
    · omega

theorem CleanupInv.step (h : CleanupInv path b) (e : CleanupEvent) : CleanupInv path (b.step path e) := by
  rcases step_cases path b e with ⟨hentry, hround, -⟩ | ⟨hentry, hround, -⟩ |
    ⟨w, p, p', -, hp, hp', hexp, hopen, hdone, hround⟩
  · exact h.of_unchanged hentry hround
  · refine ⟨fun q hq => ?_, by rw [hround]; exact empty_subset _, fun q hq _ => ?_⟩
    all_goals
      rw [hentry] at hq
      cases hq
      rw [hround]
    · rw [List.toFinset_card_of_nodup b.cleanups.workerToConn.keys_nodup]
      simp [AList.keys, List.keys]
    · rfl
  · exact h.of_count hp ⟨p', hp', hexp, hopen, hdone⟩ hround

theorem cleanupInv_run (path : String) (evs : List CleanupEvent) :
    CleanupInv path (evs.foldl (.step path) {}) := by
  induction evs using List.reverseRecOn with
  | nil => exact cleanupInv_empty
  | append_singleton evs e ih =>
    rw [List.foldl_append]
    exact ih.step e

/-! ### Soundness over whole runs -/

/-- A count keeps the barrier sound exactly if it is safe. -/
theorem CleanupInv.sound_count_iff (h : CleanupInv path b) (hgood : b.Sound path)
    {e : CleanupEvent} (hcounts : counts path e = some w)
    {p' : PendingMergeCleanup} (hp : b.entry path = some p) (hp' : b'.entry path = some p')
    (hexp : p'.expectedCount = p.expectedCount)
    (hopen : p.receivedCount < p.expectedCount → p'.receivedCount = p.receivedCount + 1)
    (hround : b'.round = b.round.count w) : b'.Sound path ↔ b.Safe path e := by
  rcases Nat.lt_trichotomy (p.receivedCount + 1) p.expectedCount with hlt | heq | hgt
  · -- still open afterwards
    refine iff_of_true ?_ ?_
    · intro q hq hdone
      obtain rfl : p' = q := Option.some.inj (hp'.symm.trans hq)
      rw [done, decide_eq_true_eq, hopen (by omega)] at hdone
      omega
    · intro q w' hq _ hfull
      obtain rfl : p = q := Option.some.inj (hp.symm.trans hq)
      omega
  · -- the count that fills the record
    have hreceived := h.received p hp (by omega)
    have hfull : b.round.accounted.card + b.round.stray + 1 = b.round.members.card := by
      rw [← hreceived, heq, h.expected p hp]
    have hiff := members_subset_count_iff h.accounted (w := w) hfull
    have hdone : p'.done = true := by
      rw [done, decide_eq_true_eq, hopen (by omega)]
      omega
    constructor
    · intro hsound q w' hq hw' _
      obtain rfl : w = w' := Option.some.inj (hcounts.symm.trans hw')
      refine hiff.mp ?_
      rw [← hround]
      exact hsound p' hp' hdone
    · intro hsafe q hq _
      rw [hround]
      exact hiff.mpr (hsafe p w hp hcounts heq)
  · -- full already
    have hdone : p.done = true := by
      rw [done, decide_eq_true_eq]
      omega
    refine iff_of_true ?_ ?_
    · intro q _ _
      rw [hround, count_members]
      exact (hgood p hp hdone).trans (accounted_subset_count _ w)
    · intro q w' hq _ hfull
      obtain rfl : p = q := Option.some.inj (hp.symm.trans hq)
      omega

theorem CleanupInv.sound_step_iff (h : CleanupInv path b) (hgood : b.Sound path)
    (e : CleanupEvent) : (b.step path e).Sound path ↔ b.Safe path e := by
  rcases step_cases path b e with ⟨hentry, hround, hcounts⟩ | ⟨hentry, hround, hcounts⟩ |
    ⟨w, p, p', hcounts, hp, hp', hexp, hopen, -, hround⟩
  · refine iff_of_true (fun q hq hdone => ?_) fun q w hq hw => ?_
    · rw [hround]
      rcases hentry with heq | heq
      · exact hgood q (by rw [← heq, hq]) hdone
      · rw [heq] at hq
        cases hq
    · rw [hcounts (by rw [hq]; rfl)] at hw
      cases hw
  · -- a new record is full at once only if nobody is connected
    refine iff_of_true (fun q hq hdone => ?_) fun q w _ hw => ?_
    · rw [hentry] at hq
      cases hq
      have hnone : b.cleanups.workerToConn.entries = [] := by
        simpa [done] using hdone
      rw [hround]
      simp [AList.keys, hnone]
    · rw [hcounts] at hw
      cases hw
  · exact h.sound_count_iff hgood hcounts hp hp' hexp hopen hround

end CleanupBarrier

open CleanupBarrier in
/-- **The clean-up barrier opens only when every member is accounted for, exactly along safe runs.** -/
theorem cleanup_barrier_iff (path : String) (evs : List CleanupEvent) :
    (∀ pre, pre <+: evs → (pre.foldl (CleanupBarrier.step path) {}).Sound path) ↔
      ∀ pre e post, evs = pre ++ e :: post → (pre.foldl (CleanupBarrier.step path) {}).Safe path e := by
  refine foldl_good_iff_safe (I := CleanupInv path) ?_ ?_ ?_
  · exact fun pre _ => cleanupInv_run path pre
  · exact fun p hp => (nomatch hp)
  · exact fun b e hinv _ hgood => hinv.sound_step_iff hgood e

/-- Two workers are connected; the first acknowledges twice, and the barrier opens without the second. -/
theorem cleanup_barrier_early :
    ¬([CleanupEvent.join 1 11, .join 2 12, .register "db", .ack "db" 1, .ack "db" 1].foldl
      (CleanupBarrier.step "db") {}).Sound "db" := by
  intro hsound
  have hmem := hsound { expectedCount := 2, receivedCount := 2 } (by decide) (by decide)
  revert hmem
  decide

end Fly.Agent
