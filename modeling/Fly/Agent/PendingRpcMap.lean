import Fly.Lib.Table

/-!
# `PendingRpcMap`

The worker's synchronous calls share one pattern: the caller puts a pending object under a key, sends its
request and sleeps until the object is completed or its time is up; the handler of the answer looks the
key up and fills the object.  The object is shared between the map and its caller, who reads it after the
entry has been erased, so the model keeps the objects apart from the map: `objects` lists them in the
order of `emplace`, and a pointer is a position in that list.

* `emplace`, `complete`, `completeAllIf`, `erase`, `find` — the sections under the map's lock;
* `waitEnter`, `waitWake` — the two ends of a sleep in `wait_for`;
* `registered` — the objects in the map, with their keys;
* `objects_emplace`, `objects_complete`, `objects_completeAllIf`, `find_emplace`, `find_erase` — what
  each operation leaves.
-/

namespace Fly.Agent

open Fly.Lib List Option Table

structure PendingRpcMap (K P : Type) where
  objects : List P := []
  map : Table K ℕ := ∅

namespace PendingRpcMap

variable {K P : Type} [DecidableEq K] (m : PendingRpcMap K P)

def find (key : K) : Option ℕ := m.map.lookup key

/-- Insert or overwrite; the new object's pointer is `m.objects.length`. -/
def emplace (key : K) (p : P) : PendingRpcMap K P where
  objects := m.objects ++ [p]
  map := m.map.insert key m.objects.length

def erase (key : K) : PendingRpcMap K P := { m with map := m.map.erase key }

def complete (key : K) (filler : P → P) : PendingRpcMap K P :=
  match m.find key with
  | some ptr => { m with objects := m.objects.modify ptr filler }
  | none => m

/-- The objects in the map, not those whose entry has been erased. -/
def completeAllIf (pred : P → Bool) (filler : P → P) : PendingRpcMap K P :=
  { m with objects := m.objects.mapIdx fun ptr p =>
      if m.map.entries.any (fun x => x.2 == ptr) && pred p then filler p else p }

def registered : List (K × P) :=
  (pairs m.map).filterMap fun x => (m.objects[x.2]?).map fun p => (x.1, p)

def isDone (done : P → Bool) (ptr : ℕ) : Bool := (m.objects[ptr]?).any done

/-- `wait_for` up to the first sleep: `some none` is the null pointer, `none` stands for going to
sleep. -/
def waitEnter (key : K) (done : P → Bool) : Option (Option ℕ) :=
  match m.find key with
  | none => some none
  | some ptr => if m.isDone done ptr then some (some ptr) else none

/-- `wait_for` after a sleep.  The caller holds a reference to the map's slot, not to its own object: it
looks at the object the slot has by now.  `none` stands for sleeping on, and for a slot that another
caller has erased, where the reference dangles. -/
def waitWake (key : K) (done : P → Bool) (timedOut : Bool) : Option (PendingRpcMap K P × Option ℕ) :=
  match m.find key with
  | none => none
  | some ptr =>
    if m.isDone done ptr then some (m, some ptr)
    else if timedOut then some (m.erase key, none)
    else none

theorem find_emplace (key : K) (p : P) (k : K) :
    (m.emplace key p).find k = if k = key then some m.objects.length else m.find k :=
  lookup_insert_eq m.map key m.objects.length k

theorem find_erase (key k : K) : (m.erase key).find k = if k = key then none else m.find k :=
  lookup_erase_eq m.map key k

theorem find_complete (key : K) (filler : P → P) (k : K) : (m.complete key filler).find k = m.find k := by
  unfold complete
  split <;> rfl

@[simp] theorem find_completeAllIf (pred : P → Bool) (filler : P → P) (k : K) :
    (m.completeAllIf pred filler).find k = m.find k := rfl

theorem objects_emplace (key : K) (p : P) (ptr : ℕ) :
    (m.emplace key p).objects[ptr]? = if ptr = m.objects.length then some p else m.objects[ptr]? := by
  show (m.objects ++ [p])[ptr]? = _
  by_cases hlt : ptr < m.objects.length
  · rw [getElem?_append_left hlt, if_neg (by omega)]
  rw [getElem?_append_right (by omega)]
  by_cases heq : ptr = m.objects.length
  · rw [if_pos heq, heq]
    simp
  · have hout : [p].length ≤ ptr - m.objects.length := by
      rw [length_singleton]
      omega
    rw [if_neg heq, getElem?_eq_none hout, getElem?_eq_none (by omega)]

theorem objects_complete (key : K) (filler : P → P) (ptr : ℕ) : (m.complete key filler).objects[ptr]? =
      if m.find key = some ptr then (m.objects[ptr]?).map filler else m.objects[ptr]? := by
  unfold complete
  cases hfind : m.find key with
  | none => simp
  | some ptr' =>
    by_cases heq : ptr' = ptr
    · simp [heq]
    · simp [heq]

variable {key : K} {done : P → Bool}
  {β : Type*} {filler : P → P} {ptr : ℕ} {timedOut : Bool} {m' : PendingRpcMap K P} {r : Option ℕ}

theorem mem_registered {p : P} :
    (key, p) ∈ m.registered ↔ ∃ ptr, m.find key = some ptr ∧ m.objects[ptr]? = some p := by
  simp only [registered, mem_filterMap, map_eq_some_iff, Prod.mk.injEq, Prod.exists, mem_pairs]
  constructor
  · intro ⟨key', ptr, hfind, p', hp', hkey, hp⟩
    subst hkey hp
    exact ⟨ptr, hfind, hp'⟩
  · intro ⟨ptr, hfind, hp⟩
    exact ⟨key, ptr, hfind, p, hp, rfl, rfl⟩

/-- Every object was there before, or it is in the map and was filled. -/
theorem objects_completeAllIf {pred : P → Bool} {p' : P}
    (h : (m.completeAllIf pred filler).objects[ptr]? = some p') : m.objects[ptr]? = some p' ∨
      ∃ key p, m.find key = some ptr ∧ m.objects[ptr]? = some p ∧ pred p = true ∧ p' = filler p := by
  simp only [completeAllIf, getElem?_mapIdx] at h
  obtain ⟨p, hp, rfl⟩ := map_eq_some_iff.mp h
  split
  · next hfill =>
    obtain ⟨hentry, hpred⟩ := Bool.and_eq_true_iff.mp hfill
    obtain ⟨x, hx, hptr⟩ := any_eq_true.mp hentry
    refine .inr ⟨x.1, p, mem_pairs.mp (mem_map.mpr ⟨x, hx, ?_⟩), hp, hpred, rfl⟩
    rw [beq_iff_eq.mp hptr]
  · exact .inl hp

/-- What a filler leaves alone is the same for all objects. -/
theorem map_objects_complete (g : P → β) (key : K)
    (hg : ∀ p, g (filler p) = g p) : (m.complete key filler).objects.map g = m.objects.map g := by
  refine ext_getElem? fun ptr => ?_
  rw [getElem?_map, getElem?_map, objects_complete]
  split
  · rw [Option.map_map]
    exact map_congr fun p _ => hg p
  · rfl

omit [DecidableEq K] in
theorem map_objects_completeAllIf (g : P → β) (pred : P → Bool) (hg : ∀ p, g (filler p) = g p) :
    (m.completeAllIf pred filler).objects.map g = m.objects.map g := by
  refine ext_getElem? fun ptr => ?_
  simp only [completeAllIf, getElem?_map, getElem?_mapIdx, Option.map_map]
  refine map_congr fun p _ => ?_
  dsimp only [Function.comp]
  split
  · exact hg p
  · rfl

/-- The object that `wait_for` returns at the first look is done. -/
theorem waitEnter_eq_some (h : m.waitEnter key done = some (some ptr)) :
    m.find key = some ptr ∧ m.isDone done ptr = true := by
  unfold waitEnter at h
  cases hfind : m.find key with
  | none =>
    rw [hfind] at h
    cases h
  | some ptr' =>
    simp only [hfind] at h
    split at h
    · next hdone =>
      cases h
      exact ⟨rfl, hdone⟩
    · cases h

/-- What `wait_for` returns after a sleep: the object of the slot if it is done, or nothing and the entry
is gone. -/
theorem waitWake_cases (h : m.waitWake key done timedOut = some (m', r)) :
    ∃ ptr, m.find key = some ptr ∧ ((r = some ptr ∧ m' = m ∧ m.isDone done ptr = true) ∨
      (r = none ∧ m' = m.erase key ∧ m.isDone done ptr = false)) := by
  unfold waitWake at h
  cases hfind : m.find key with
  | none =>
    rw [hfind] at h
    cases h
  | some ptr =>
    simp only [hfind] at h
    refine ⟨ptr, rfl, ?_⟩
    split at h
    · next hdone =>
      cases h
      exact .inl ⟨rfl, rfl, hdone⟩
    · next hdone =>
      split at h
      · cases h
        exact .inr ⟨rfl, rfl, Bool.eq_false_iff.mpr hdone⟩
      · cases h

end PendingRpcMap

end Fly.Agent
