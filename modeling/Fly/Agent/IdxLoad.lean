import Fly.Lib.Run
import Fly.Lib.Table
import Mathlib.Algebra.Ring.Nat
import Mathlib.Data.Finset.Basic
import Mathlib.Data.Finset.SDiff

/-!
# The visibility barrier of `load_db` (`pending_idx_loads_` in `agent/cpp/master_agent.cpp`)

`load_db` sends an index-load command to each worker it targets and polls `idx_load_pending` until it
reports 0 (go on) or a negative number (give up).  The master keeps one record per database path: the
workers whose acknowledgement is missing, and `remaining_`, which is that number or the failure sentinel
`-1`.  Three handlers write the record, each under the mutex of the table.

* `sendIdxLoad`, `onIdxLoadAck`, `settleIdxLoads` — the handlers, over the whole table;
* `LoadRound` — what the barrier is about, for one path: who was targeted since the last completion, who
  acknowledged, who died first, and whether a load has failed since the last command;
* `LoadRound.Sound` — a failed round reports a negative number, and 0 means that all have acknowledged;
* `barrier_sound_iff` — **the barrier is sound along a run exactly if every successful acknowledgement
  is safe**: it does not arrive after a failure, and does not empty a record from which a dead worker was
  dropped.  The handler recomputes `remaining_` from the set and so overwrites the sentinel.
-/

namespace Fly.Agent

open Fly.Lib List Option Finset Table

/-! ### The table and its handlers -/

structure PendingIdxLoad where
  remaining : ℤ := 0
  pendingWorkers : SortedSet ℕ := ∅
  deriving DecidableEq

/-- `static_cast<int32_t>` of a container size: the balanced remainder modulo `2 ^ 32`. -/
def int32 (n : ℕ) : ℤ := Int.bmod n 4294967296

theorem int32_of_lt {n : ℕ} (h : n < 2 ^ 31) : int32 n = n := by
  refine Int.bmod_eq_of_le ?_ ?_
  · omega
  · omega

abbrev IdxLoads := Table String PendingIdxLoad

namespace IdxLoads

variable (m : IdxLoads) (path : String) (worker : ℕ)

/-- The registration inside `send_idx_load_to_worker`, once a connection was found. -/
def sendIdxLoad : IdxLoads :=
  match m.lookup path with
  | none => m.insert path { remaining := 1, pendingWorkers := .insert ∅ worker }
  | some p =>
    m.insert path
      { pendingWorkers := p.pendingWorkers.insert worker
        remaining := int32 (p.pendingWorkers.insert worker).card }

def idxLoadPending : ℤ :=
  match m.lookup path with
  | none => 0
  | some p => p.remaining

/-- The two failure branches of `on_idx_load_ack`; the worker stays in the set. -/
def failIdxLoad : IdxLoads :=
  modify m path fun p => { p with remaining := -1 }

/-- `on_idx_load_ack`; `dbKnown` is the lookup in `db_instances_`. -/
def onIdxLoadAck (success dbKnown : Bool) : IdxLoads :=
  if !success then failIdxLoad m path
  else if !dbKnown then failIdxLoad m path
  else modify m path fun p =>
    { pendingWorkers := p.pendingWorkers.erase worker
      remaining := int32 (p.pendingWorkers.erase worker).card }

/-- The part of `settle_pending_for_dead_worker` about index loads. -/
def settleIdxLoads : IdxLoads :=
  mapValues m fun p =>
    if worker ∈ p.pendingWorkers then
      { pendingWorkers := p.pendingWorkers.erase worker, remaining := -1 }
    else p

end IdxLoads

/-- What happens to the table.  A send to a worker without a connection stops before it. -/
inductive IdxLoadEvent where
  | send (path : String) (worker : ℕ) (connected : Bool)
  | ack (path : String) (worker : ℕ) (success dbKnown : Bool)
  | death (worker : ℕ)
  deriving DecidableEq

open IdxLoadEvent

def IdxLoads.step (m : IdxLoads) : IdxLoadEvent → IdxLoads
  | .send path worker connected => if connected then m.sendIdxLoad path worker else m
  | .ack path worker success dbKnown => m.onIdxLoadAck path worker success dbKnown
  | .death worker => m.settleIdxLoads worker

/-! ### The round of one path -/

/-- The round of load commands of one path, as `load_db` understands it. -/
structure LoadRound where
  /-- targeted since the last completion -/
  targeted : Finset ℕ := ∅
  /-- acknowledged successfully since it was last targeted -/
  acked : Finset ℕ := ∅
  /-- declared dead before acknowledging, and not targeted again -/
  lost : Finset ℕ := ∅
  /-- a targeted worker failed or died, and no load command was sent since -/
  failed : Bool := false

namespace LoadRound

def next (path : String) (r : LoadRound) : IdxLoadEvent → LoadRound
  | .send p w connected =>
    if p = path ∧ connected = true then
      { targeted := insert w r.targeted
        acked := r.acked.erase w
        lost := r.lost.erase w
        failed := false }
    else r
  | .ack p w success dbKnown =>
    if p = path ∧ w ∈ r.targeted then
      if success && dbKnown then { r with acked := insert w r.acked, lost := r.lost.erase w }
      else { r with failed := true }
    else r
  | .death w =>
    if w ∈ r.targeted ∧ w ∉ r.acked ∧ w ∉ r.lost then
      { r with lost := insert w r.lost, failed := true }
    else r

/-- A report of 0 completes the round. -/
def settle (r : LoadRound) (reported : ℤ) : LoadRound := if reported = 0 then {} else r

/-- What the reported number promises about the round. -/
structure Sound (r : LoadRound) (reported : ℤ) : Prop where
  failed_neg : r.failed = true → reported < 0
  zero_acked : reported = 0 → r.targeted ⊆ r.acked

end LoadRound

open LoadRound

/-- The table together with the round of one path: before the last report was consumed (`current`) and
after (`round`). -/
structure Barrier where
  loads : IdxLoads := ∅
  current : LoadRound := {}
  round : LoadRound := {}

namespace Barrier

variable (path : String) (b : Barrier)

def step (e : IdxLoadEvent) : Barrier :=
  let loads := b.loads.step e
  let current := b.round.next path e
  { loads := loads, current := current, round := current.settle (loads.idxLoadPending path) }

/-- The barrier keeps its promise after the last event. -/
def Sound : Prop := b.current.Sound (b.loads.idxLoadPending path)

/-- A successful acknowledgement that finds the record of the path comes before any failure since the
last load command, and if it empties the record, no other targeted worker has died unacknowledged. -/
def Safe : IdxLoadEvent → Prop
  | .ack p w success dbKnown => p = path → success = true → dbKnown = true →
      ∀ entry, b.loads.lookup path = some entry →
        b.round.failed = false ∧ ((entry.pendingWorkers.erase w).card = 0 → b.round.lost ⊆ {w})
  | _ => True

end Barrier

open Barrier

/-! ### One path at a time -/

/-- What an event does to the record of one path. -/
def entryStep (path : String) (o : Option PendingIdxLoad) : IdxLoadEvent → Option PendingIdxLoad
  | .send p w connected =>
    if p = path ∧ connected = true then
      match o with
      | none => some { remaining := 1, pendingWorkers := .insert ∅ w }
      | some entry => some
          { pendingWorkers := entry.pendingWorkers.insert w
            remaining := int32 (entry.pendingWorkers.insert w).card }
    else o
  | .ack p w success dbKnown =>
    if p = path then
      if success && dbKnown then o.map fun entry =>
        { pendingWorkers := entry.pendingWorkers.erase w
          remaining := int32 (entry.pendingWorkers.erase w).card }
      else o.map fun entry => { entry with remaining := -1 }
    else o
  | .death w => o.map fun entry =>
      if w ∈ entry.pendingWorkers then
        { pendingWorkers := entry.pendingWorkers.erase w, remaining := -1 }
      else entry

/-- The handlers act on every path by itself. -/
theorem lookup_step (m : IdxLoads) (path : String) (e : IdxLoadEvent) :
    (m.step e).lookup path = entryStep path (m.lookup path) e := by
  cases e with
  | send p w connected =>
    cases connected with
    | false => simp [IdxLoads.step, entryStep]
    | true =>
      simp only [IdxLoads.step, if_true, IdxLoads.sendIdxLoad, entryStep, and_true]
      by_cases hp : p = path
      · subst hp
        cases h : m.lookup p <;> simp
      · have hne : path ≠ p := fun h => hp h.symm
        cases h : m.lookup p <;> simp [hp, hne]
  | ack p w success dbKnown =>
    simp only [IdxLoads.step, IdxLoads.onIdxLoadAck, IdxLoads.failIdxLoad, entryStep]
    by_cases hp : p = path
    · subst hp
      cases success <;> cases dbKnown <;> simp [lookup_modify]
    · have hne : path ≠ p := fun h => hp h.symm
      cases success <;> cases dbKnown <;> simp [lookup_modify, hp, hne]
  | death w => exact lookup_mapValues m _ path

theorem entryStep_send (path : String) (o : Option PendingIdxLoad) (w : ℕ) :
    ∃ new, entryStep path o (.send path w true) = some new ∧
      new.remaining = int32 new.pendingWorkers.card ∧ ∀ x, x ∈ new.pendingWorkers ↔
        x = w ∨ ∃ entry, o = some entry ∧ x ∈ entry.pendingWorkers := by
  cases o with
  | none => exact ⟨_, if_pos ⟨rfl, rfl⟩, (int32_of_lt (n := 1) (by decide)).symm, by simp⟩
  | some old => exact ⟨_, if_pos ⟨rfl, rfl⟩, by dsimp only, by simp⟩

theorem entryStep_ackOk (path : String) (o : Option PendingIdxLoad) (w : ℕ) :
    entryStep path o (.ack path w true true) = o.map fun entry =>
      { pendingWorkers := entry.pendingWorkers.erase w
        remaining := int32 (entry.pendingWorkers.erase w).card } := by
  simp [entryStep]

/-- The worker an event targets for the path. -/
def IdxLoadEvent.sentTo (path : String) : IdxLoadEvent → Option ℕ
  | .send p w connected => if p = path ∧ connected = true then some w else none
  | _ => none

/-! ### What holds regardless -/

/-- How the record of a path and its round hang together; `sent` are the workers targeted so far. -/
structure EntryInv (sent : List ℕ) (o : Option PendingIdxLoad) (r : LoadRound) : Prop where
  waiting : ∀ w, (∃ entry, o = some entry ∧ w ∈ entry.pendingWorkers) ↔
    w ∈ r.targeted ∧ w ∉ r.acked ∧ w ∉ r.lost
  lost_targeted : r.lost ⊆ r.targeted
  lost_acked : ∀ w ∈ r.lost, w ∉ r.acked
  remaining : ∀ entry, o = some entry →
    entry.remaining = -1 ∨ entry.remaining = int32 entry.pendingWorkers.card
  sent : ∀ w ∈ r.targeted, w ∈ sent
  none_idle : o = none → r.targeted = ∅ ∧ r.failed = false

theorem EntryInv.empty : EntryInv [] none {} := by
  refine ⟨?_, by simp, by simp, by simp, by simp, by simp⟩
  intro w
  simp

section

variable (path : String) {sent : List ℕ} {o : Option PendingIdxLoad} {r : LoadRound}

section

variable (h : EntryInv sent o r)

include h

theorem EntryInv.send (w : ℕ) : EntryInv (sent ++ [w]) (entryStep path o (.send path w true))
      (r.next path (.send path w true)) := by
  obtain ⟨new, hnew, hremaining, hmem⟩ := entryStep_send path o w
  rw [hnew, LoadRound.next, if_pos ⟨rfl, rfl⟩]
  refine ⟨fun x => ?_, fun x hx => ?_, fun x hx hacked => ?_, ?_, fun x hx => ?_, nofun⟩
  · simp only [Option.some.injEq, exists_eq_left', hmem, h.waiting, mem_insert, mem_erase]
    tauto
  · exact mem_insert_of_mem (h.lost_targeted (mem_of_mem_erase hx))
  · exact h.lost_acked x (mem_of_mem_erase hx) (mem_of_mem_erase hacked)
  · rintro entry ⟨⟩
    exact .inr hremaining
  · rcases mem_insert.mp hx with rfl | hx
    · simp
    · exact mem_append_left _ (h.sent x hx)

/-- A successful acknowledgement makes up for an earlier loss of its worker, and of no other. -/
theorem EntryInv.round_ackOk (w x : ℕ) :
    (x ∈ (r.next path (.ack path w true true)).targeted ↔ x ∈ r.targeted) ∧
      (x ∈ (r.next path (.ack path w true true)).acked ↔ x ∈ r.acked ∨ (x = w ∧ w ∈ r.targeted)) ∧
      (x ∈ (r.next path (.ack path w true true)).lost ↔ x ∈ r.lost ∧ x ≠ w) := by
  by_cases hw : w ∈ r.targeted
  · simp only [LoadRound.next, hw, and_self, if_true, Bool.and_self, mem_insert, mem_erase]
    tauto
  have hne : x ∈ r.lost → x ≠ w := by
    rintro hx rfl
    exact hw (h.lost_targeted hx)
  simp only [LoadRound.next, hw, and_false, if_false]
  tauto

theorem EntryInv.ackOk (w : ℕ) : EntryInv sent (entryStep path o (.ack path w true true))
      (r.next path (.ack path w true true)) := by
  rw [entryStep_ackOk]
  have hround := h.round_ackOk path w
  refine ⟨?_, ?_, ?_, ?_, ?_, ?_⟩
  · intro x
    have hold := h.waiting x
    rw [(hround x).1, (hround x).2.1, (hround x).2.2]
    by_cases hx : x = w
    · cases o <;> simp [hx] <;> tauto
    · cases o <;> simp [hx] at hold ⊢ <;> tauto
  · intro x hx
    rw [(hround x).1]
    exact h.lost_targeted ((hround x).2.2.mp hx).1
  · intro x hx
    have hlost := (hround x).2.2.mp hx
    rw [(hround x).2.1]
    rintro (ha | ⟨rfl, -⟩)
    · exact h.lost_acked x hlost.1 ha
    · exact hlost.2 rfl
  · intro entry hentry
    obtain ⟨old, -, rfl⟩ := map_eq_some_iff.mp hentry
    exact .inr (by dsimp only)
  · intro x hx
    exact h.sent x ((hround x).1.mp hx)
  · intro hnone
    obtain ⟨htargeted, hfailed⟩ := h.none_idle (map_eq_none_iff.mp hnone)
    simp [LoadRound.next, htargeted, hfailed]

theorem EntryInv.ackFail (w : ℕ) {success dbKnown : Bool} (hfail : (success && dbKnown) = false) :
    EntryInv sent (entryStep path o (.ack path w success dbKnown))
      (r.next path (.ack path w success dbKnown)) := by
  have hentry : entryStep path o (.ack path w success dbKnown) =
      o.map fun entry => { entry with remaining := -1 } := by
    simp [entryStep, hfail]
  -- the round has failed if it waits for the worker, and is as before if not
  obtain ⟨failed, hround, hidle⟩ : ∃ failed, r.next path (.ack path w success dbKnown) = { r with failed } ∧
      (r.targeted = ∅ → failed = r.failed) := by
    by_cases hw : w ∈ r.targeted
    · exact ⟨true, by simp [LoadRound.next, hfail, hw], fun hnone => absurd hw (by simp [hnone])⟩
    · exact ⟨r.failed, by simp [LoadRound.next, hw], fun _ => rfl⟩
  rw [hentry, hround]
  refine ⟨fun x => ?_, h.lost_targeted, h.lost_acked, ?_, h.sent, ?_⟩
  · rw [← h.waiting]
    cases o <;> simp
  · intro entry he
    obtain ⟨old, -, rfl⟩ := map_eq_some_iff.mp he
    exact .inl rfl
  · intro hnone
    rw [map_eq_none_iff] at hnone
    obtain ⟨htargeted, hfailed⟩ := h.none_idle hnone
    exact ⟨htargeted, (hidle htargeted).trans hfailed⟩

theorem EntryInv.entryStep_death {w : ℕ} (hw : ¬(w ∈ r.targeted ∧ w ∉ r.acked ∧ w ∉ r.lost)) :
    entryStep path o (.death w) = o := by
  cases o with
  | none => rfl
  | some old =>
    have hnot : w ∉ old.pendingWorkers := fun hin => hw ((h.waiting w).mp ⟨old, rfl, hin⟩)
    simp [entryStep, hnot]

theorem EntryInv.death (w : ℕ) : EntryInv sent (entryStep path o (.death w)) (r.next path (.death w)) := by
  by_cases hw : w ∈ r.targeted ∧ w ∉ r.acked ∧ w ∉ r.lost
  · obtain ⟨old, rfl, hin⟩ := (h.waiting w).mpr hw
    have hentry : entryStep path (some old) (.death w) =
        some { pendingWorkers := old.pendingWorkers.erase w, remaining := -1 } := by
      simp [entryStep, hin]
    have hround : r.next path (.death w) = { r with lost := insert w r.lost, failed := true } := by
      simp [LoadRound.next, hw]
    rw [hentry, hround]
    refine ⟨?_, ?_, ?_, ?_, h.sent, by simp⟩
    · intro x
      have hold := h.waiting x
      simp only [Option.some.injEq, exists_eq_left', SortedSet.mem_erase, mem_insert] at hold ⊢
      tauto
    · intro x hx
      rcases mem_insert.mp hx with rfl | hx
      · exact hw.1
      · exact h.lost_targeted hx
    · intro x hx
      rcases mem_insert.mp hx with rfl | hx
      · exact hw.2.1
      · exact h.lost_acked x hx
    · rintro entry ⟨⟩
      exact .inl rfl
  · have hround : r.next path (.death w) = r := by simp only [LoadRound.next, if_neg hw]
    rw [h.entryStep_death path hw, hround]
    exact h

theorem EntryInv.next (e : IdxLoadEvent) :
    EntryInv (sent ++ (e.sentTo path).toList) (entryStep path o e) (r.next path e) := by
  cases e with
  | send p w connected =>
    by_cases hp : p = path ∧ connected = true
    · obtain ⟨rfl, rfl⟩ := hp
      simpa [sentTo] using h.send p w
    · simpa only [sentTo, entryStep, LoadRound.next, if_neg hp, toList_none,
        append_nil] using h
  | ack p w success dbKnown =>
    rw [show sentTo path (.ack p w success dbKnown) = none from rfl, toList_none, append_nil]
    by_cases hp : p = path
    · subst hp
      cases hok : success && dbKnown with
      | true =>
        obtain ⟨rfl, rfl⟩ := Bool.and_eq_true_iff.mp hok
        exact h.ackOk p w
      | false => exact h.ackFail p w hok
    · simpa only [entryStep, LoadRound.next, hp, false_and, if_false] using h
  | death w =>
    rw [show sentTo path (.death w) = none from rfl, toList_none, append_nil]
    exact h.death path w

/-- Fewer than `2 ^ 31` distinct workers were targeted, so the size of the set fits the counter. -/
theorem EntryInv.card_lt (hbound : sent.dedup.length < 2 ^ 31)
    {entry : PendingIdxLoad} (ho : o = some entry) : entry.pendingWorkers.card < 2 ^ 31 := by
  have hsub : entry.pendingWorkers.toList ⊆ sent.dedup := by
    intro w hw
    exact mem_dedup.mpr (h.sent w ((h.waiting w).mp ⟨entry, ho, hw⟩).1)
  have hle := (entry.pendingWorkers.nodup.subperm hsub).length_le
  exact lt_of_le_of_lt hle hbound

/-- A report of 0 means that no acknowledgement is missing, so the round can be closed. -/
theorem EntryInv.settle (hbound : sent.dedup.length < 2 ^ 31)
    {reported : ℤ} (hrep : reported = (o.map PendingIdxLoad.remaining).getD 0) :
    EntryInv sent o (r.settle reported) := by
  unfold LoadRound.settle
  split
  case isFalse => exact h
  case isTrue hzero =>
    have hempty : ∀ entry, o = some entry → entry.pendingWorkers.toList = [] := by
      intro entry ho
      rw [hzero, ho, map_some, getD_some] at hrep
      rcases h.remaining entry ho with hrem | hrem
      · omega
      · rw [int32_of_lt (h.card_lt hbound ho)] at hrem
        have hcard : entry.pendingWorkers.card = 0 := by omega
        exact length_eq_zero_iff.mp hcard
    refine ⟨?_, by simp, by simp, h.remaining, by simp, by simp⟩
    intro w
    constructor
    · rintro ⟨entry, ho, hin⟩
      rw [← SortedSet.mem_toList, hempty entry ho] at hin
      cases hin
    · rintro ⟨hin, -⟩
      cases hin

end

end

/-! ### Soundness over whole runs -/

theorem idxLoadPending_eq (m : IdxLoads) (path : String) :
    m.idxLoadPending path = ((m.lookup path).map PendingIdxLoad.remaining).getD 0 := by
  unfold IdxLoads.idxLoadPending
  cases m.lookup path <;> rfl

/-- What holds of a barrier after any run: the record and the round fit, the set is small, and a report
of 0 has closed the round. -/
structure BarrierInv (path : String) (b : Barrier) : Prop where
  small : ∃ sent : List ℕ, EntryInv sent (b.loads.lookup path) b.round ∧ sent.dedup.length < 2 ^ 31
  closed : b.loads.idxLoadPending path = 0 → b.round = {}
  settled : b.round = b.current.settle (b.loads.idxLoadPending path)

theorem length_targeted_le (path : String) (evs more : List IdxLoadEvent) :
    (evs.filterMap (sentTo path)).dedup.length ≤
      ((evs ++ more).filterMap (sentTo path)).dedup.length := by
  refine ((nodup_dedup _).subperm fun w hw => ?_).length_le
  rw [mem_dedup] at hw ⊢
  rw [filterMap_append]
  exact mem_append_left _ hw

theorem barrierInv_run (path : String) (evs : List IdxLoadEvent)
    (hbound : (evs.filterMap (sentTo path)).dedup.length < 2 ^ 31) :
    BarrierInv path (evs.foldl (step path) {}) := by
  have hmain : let b := evs.foldl (step path) {}
      EntryInv (evs.filterMap (sentTo path)) (b.loads.lookup path) b.round ∧
        b.round = b.current.settle (b.loads.idxLoadPending path) := by
    induction evs using List.reverseRecOn with
    | nil => exact ⟨EntryInv.empty, rfl⟩
    | append_singleton evs e ih =>
      have hnext := (ih ((length_targeted_le path evs [e]).trans_lt hbound)).1.next path e
      have hlast : [e].filterMap (sentTo path) = (sentTo path e).toList := by
        cases h : sentTo path e <;> simp [h]
      rw [filterMap_append, hlast] at hbound
      rw [foldl_append, filterMap_append, hlast]
      refine ⟨?_, rfl⟩
      show EntryInv _ ((IdxLoads.step _ e).lookup path) (settle _ _)
      rw [lookup_step]
      refine hnext.settle hbound ?_
      rw [idxLoadPending_eq, lookup_step]
  obtain ⟨hentry, hsettled⟩ := hmain
  refine ⟨⟨_, hentry, hbound⟩, fun hzero => ?_, hsettled⟩
  rw [hsettled, settle, if_pos hzero]

theorem Barrier.idxLoadPending_step (path : String) (b : Barrier) (e : IdxLoadEvent) :
    (b.step path e).loads.idxLoadPending path =
      ((entryStep path (b.loads.lookup path) e).map PendingIdxLoad.remaining).getD 0 := by
  rw [idxLoadPending_eq, step, lookup_step]

variable {b : Barrier} {path : String} {w : ℕ} {e : IdxLoadEvent} {entry : PendingIdxLoad}

/-- An event that changes neither the record nor the round leaves a sound barrier sound. -/
theorem BarrierInv.sound_of_unchanged (hinv : BarrierInv path b) (hgood : b.Sound path)
    (hentry : entryStep path (b.loads.lookup path) e = b.loads.lookup path)
    (hround : b.round.next path e = b.round) : (b.step path e).Sound path := by
  have hvalue : (b.step path e).loads.idxLoadPending path = b.loads.idxLoadPending path := by
    rw [idxLoadPending_step, hentry, idxLoadPending_eq]
  show (b.round.next path e).Sound _
  rw [hvalue, hround]
  refine ⟨?_, ?_⟩
  · intro hfailed
    rw [hinv.settled, settle] at hfailed
    split at hfailed
    case isTrue => cases hfailed
    case isFalse => exact hgood.failed_neg hfailed
  · intro hzero
    rw [hinv.closed hzero]

/-- Once the record is empty, whoever was targeted has acknowledged or is lost. -/
theorem EntryInv.acked_ackOk_iff {sent : List ℕ} {o : Option PendingIdxLoad} {r : LoadRound}
    (h : EntryInv sent o r) (path : String)
    (ho : o = some entry) (hzero : (entry.pendingWorkers.erase w).card = 0) :
    (r.next path (.ack path w true true)).targeted ⊆ (r.next path (.ack path w true true)).acked ↔
      r.lost ⊆ {w} := by
  have hnext := h.ackOk path w
  set r' := r.next path (.ack path w true true)
  have hnone : ∀ x, x ∈ r'.targeted → x ∉ r'.acked → x ∈ r'.lost := by
    intro x ht ha
    by_contra hl
    obtain ⟨new, hnew, hin⟩ := (hnext.waiting x).mpr ⟨ht, ha, hl⟩
    rw [ho, entryStep_ackOk, map_some, some.injEq] at hnew
    subst hnew
    rw [← SortedSet.mem_toList, length_eq_zero_iff.mp hzero] at hin
    cases hin
  constructor
  · intro hsub x hx
    rw [Finset.mem_singleton]
    by_contra hne
    have hx' := (h.round_ackOk path w x).2.2.mpr ⟨hx, hne⟩
    exact hnext.lost_acked x hx' (hsub (hnext.lost_targeted hx'))
  · intro hsub x hx
    by_contra ha
    obtain ⟨hl, hne⟩ := (h.round_ackOk path w x).2.2.mp (hnone x hx ha)
    exact hne (Finset.mem_singleton.mp (hsub hl))

/-- A successful acknowledgement that finds a record keeps the barrier sound exactly if it is safe. -/
theorem BarrierInv.sound_ackOk_iff (hinv : BarrierInv path b)
    (hentry : b.loads.lookup path = some entry) :
    (b.step path (.ack path w true true)).Sound path ↔
      b.round.failed = false ∧ ((entry.pendingWorkers.erase w).card = 0 → b.round.lost ⊆ {w}) := by
  obtain ⟨sent, hsent, hbound⟩ := hinv.small
  have hcard : (entry.pendingWorkers.erase w).card < 2 ^ 31 :=
    (hsent.ackOk path w).card_lt hbound (by rw [hentry, entryStep_ackOk]; rfl)
  have hvalue : (b.step path (.ack path w true true)).loads.idxLoadPending path =
      ((entry.pendingWorkers.erase w).card : ℤ) := by
    rw [idxLoadPending_step, hentry, entryStep_ackOk, map_some, map_some, getD_some]
    dsimp only
    rw [int32_of_lt hcard]
  have hfailed : (b.round.next path (.ack path w true true)).failed = b.round.failed := by
    simp only [LoadRound.next, Bool.and_self, if_true]
    split <;> rfl
  constructor
  · intro hsound
    have hfail : b.round.failed = false := by
      rw [← hfailed, ← Bool.not_eq_true]
      intro hf
      have := hsound.failed_neg hf
      rw [hvalue] at this
      omega
    refine ⟨hfail, fun hzero => (hsent.acked_ackOk_iff path hentry hzero).mp ?_⟩
    exact hsound.zero_acked (by omega)
  · rintro ⟨hfail, hlost⟩
    refine ⟨?_, ?_⟩
    · intro hf
      have hf' : (b.round.next path (.ack path w true true)).failed = true := hf
      rw [hfailed, hfail] at hf'
      cases hf'
    · intro hzero
      have hcard0 : (entry.pendingWorkers.erase w).card = 0 := by omega
      exact (hsent.acked_ackOk_iff path hentry hcard0).mpr (hlost hcard0)

/-- After a load command has gone out the number is positive. -/
theorem BarrierInv.pending_send_pos (hinv' : BarrierInv path (b.step path (.send path w true))) :
    0 < (b.step path (.send path w true)).loads.idxLoadPending path := by
  obtain ⟨sent, hsent, hbound⟩ := hinv'.small
  obtain ⟨new, hnew, hremaining, hmem⟩ := entryStep_send path (b.loads.lookup path) w
  have hpos : 0 < new.pendingWorkers.card := length_pos_of_mem ((hmem w).mpr (.inl rfl))
  have hsmall := hsent.card_lt hbound ((lookup_step ..).trans hnew)
  rw [idxLoadPending_step, hnew, map_some, getD_some, hremaining, int32_of_lt hsmall]
  omega

theorem BarrierInv.sound_send {p : String} {connected : Bool}
    (hinv : BarrierInv path b) (hinv' : BarrierInv path (b.step path (.send p w connected)))
    (hgood : b.Sound path) : (b.step path (.send p w connected)).Sound path := by
  by_cases hp : p = path ∧ connected = true
  · obtain ⟨rfl, rfl⟩ := hp
    have hpos := hinv'.pending_send_pos
    refine ⟨fun (hf : (b.round.next p (.send p w true)).failed = true) => ?_, fun hzero => ?_⟩
    · simp [LoadRound.next] at hf
    · omega
  · exact hinv.sound_of_unchanged hgood (by simp only [entryStep, if_neg hp])
      (by simp only [LoadRound.next, if_neg hp])

/-- A round with a negative number has failed, and is sound. -/
theorem Barrier.sound_of_neg (hvalue : b.loads.idxLoadPending path = -1) : b.Sound path :=
  ⟨fun _ => by omega, fun hzero => by omega⟩

theorem BarrierInv.sound_death (hinv : BarrierInv path b)
    (hgood : b.Sound path) : (b.step path (.death w)).Sound path := by
  obtain ⟨sent, hsent, -⟩ := hinv.small
  by_cases hw : w ∈ b.round.targeted ∧ w ∉ b.round.acked ∧ w ∉ b.round.lost
  · obtain ⟨entry, ho, hin⟩ := (hsent.waiting w).mpr hw
    refine sound_of_neg ?_
    rw [idxLoadPending_step, ho]
    simp [entryStep, hin]
  · exact hinv.sound_of_unchanged hgood (hsent.entryStep_death path hw)
      (by simp only [LoadRound.next, if_neg hw])

/-- From a sound barrier, one event keeps it sound exactly if the event is safe. -/
theorem BarrierInv.sound_step_iff
    (hinv : BarrierInv path b) (hinv' : BarrierInv path (b.step path e)) (hgood : b.Sound path) :
    (b.step path e).Sound path ↔ b.Safe path e := by
  obtain ⟨sent, hsent, -⟩ := hinv.small
  cases e with
  | send p w connected => exact iff_of_true (hinv.sound_send hinv' hgood) trivial
  | death w => exact iff_of_true (hinv.sound_death hgood) trivial
  | ack p w success dbKnown =>
    by_cases hp : p = path
    · subst hp
      cases ho : b.loads.lookup p with
      | none =>
        -- nobody was targeted, the acknowledgement is ignored
        refine iff_of_true (hinv.sound_of_unchanged hgood ?_ ?_) ?_
        · rw [ho]
          cases success <;> cases dbKnown <;> simp [entryStep]
        · have htargeted := (hsent.none_idle ho).1
          simp [LoadRound.next, htargeted]
        · intro _ _ _ entry hentry
          rw [ho] at hentry
          cases hentry
      | some entry =>
        cases hok : success && dbKnown with
        | true =>
          obtain ⟨rfl, rfl⟩ := Bool.and_eq_true_iff.mp hok
          rw [hinv.sound_ackOk_iff ho]
          constructor
          · rintro hsafe - - - entry' hentry'
            rw [ho] at hentry'
            cases hentry'
            exact hsafe
          · exact fun hsafe => hsafe rfl rfl rfl entry ho
        | false =>
          refine iff_of_true (sound_of_neg ?_) ?_
          · rw [idxLoadPending_step, ho]
            simp [entryStep, hok]
          · rintro - rfl rfl
            cases hok
    · refine iff_of_true (hinv.sound_of_unchanged hgood ?_ ?_) fun h => absurd h hp
      · simp only [entryStep, if_neg hp]
      · simp only [LoadRound.next, hp, false_and, if_false]

/-- **The visibility barrier is sound exactly along safe runs.**  For every path and every sequence of
load commands, acknowledgements and deaths that targets fewer than `2 ^ 31` distinct workers. -/
theorem barrier_sound_iff (path : String) (evs : List IdxLoadEvent)
    (hbound : (evs.filterMap (sentTo path)).dedup.length < 2 ^ 31) :
    (∀ pre, pre <+: evs → (pre.foldl (step path) {}).Sound path) ↔
      ∀ pre e post, evs = pre ++ e :: post → (pre.foldl (step path) {}).Safe path e := by
  refine foldl_good_iff_safe (I := BarrierInv path) ?_ ?_ ?_
  · rintro pre ⟨post, rfl⟩
    exact barrierInv_run path pre ((length_targeted_le path pre post).trans_lt hbound)
  · exact ⟨fun hfailed => (nomatch hfailed), fun _ => Finset.Subset.refl _⟩
  · intro b e hinv hinv' hgood
    exact hinv.sound_step_iff hinv' hgood

/-- Two workers are targeted; the first acknowledges, the second dies and is targeted again. -/
def secondRetried : List IdxLoadEvent :=
  [.send "db" 1 true, .send "db" 2 true, .ack "db" 1 true true, .death 2, .send "db" 2 true,
    .ack "db" 2 true true]

theorem barrier_sound_iff_secondRetried :
    (∀ pre, pre <+: secondRetried → (pre.foldl (step "db") {}).Sound "db") ↔
      ∀ pre e post, secondRetried = pre ++ e :: post → (pre.foldl (step "db") {}).Safe "db" e :=
  barrier_sound_iff "db" secondRetried (by decide)

/-- Two workers are targeted, the first dies, the second acknowledges: the sentinel is overwritten and
`load_db` goes on as if both had loaded. -/
theorem barrier_not_sound : ([send "db" 1 true, .send "db" 2 true, .death 1].foldl
        (step "db") {}).loads.idxLoadPending "db" = -1 ∧
      ([send "db" 1 true, .send "db" 2 true, .death 1, .ack "db" 2 true true].foldl
        (step "db") {}).loads.idxLoadPending "db" = 0 ∧
      ¬([send "db" 1 true, .send "db" 2 true, .death 1, .ack "db" 2 true true].foldl
        (step "db") {}).Sound "db" := by
  refine ⟨by decide, by decide, fun hsound => ?_⟩
  have hneg := hsound.failed_neg (by decide)
  revert hneg
  decide

end Fly.Agent
