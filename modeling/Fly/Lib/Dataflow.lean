import Mathlib.Algebra.Order.BigOperators.Group.Finset
import Mathlib.Data.List.Nodup
import Mathlib.Data.Nat.Find
import Fly.Lib.Run

/-!
# Tasks over named objects

A task declares the objects it needs and has a body of reads, writes and removals.  It may start when
all objects it declares are there; the operations of the tasks that run are interleaved in any order.

A plan is a list of tasks of which each writes objects of its own, reads only what it declares and ends
with a write; what a task declares is there from the start or written by an earlier task, and what a task
writes is declared by a later one, up to one last object.  `val` gives the object each name stands
for.  A last task may remove objects once the last object is there.

* `Stages` — tasks that lead from some objects to others; they compose, and make a plan;
* `Inv` — no interleaving ever misses an object, and an object that is there is the one `val` gives;
  `run_inv`
* `run_length_le`, `exists_step_of_not_finished`, `exists_finished` — every run comes to an end, and
  ends with all tasks finished;
* `store_of_finished` — the objects that are there then.
-/

namespace Fly.Lib.Dataflow

open List Function Nat

inductive Prog (K V : Type) where
  | done
  /-- the body raises an error of its own -/
  | fail
  | read (k : K) (next : V → Prog K V)
  | write (k : K) (v : V) (next : Prog K V)
  | remove (k : K) (next : Prog K V)

structure Task (K V : Type) where
  inputs : List K
  body : Prog K V

structure World (K V : Type) where
  store : K → Option V
  /-- what is left of the body of the task at a position; `none` if it has not started -/
  status : ℕ → Option (Prog K V)
  /-- objects missed, objects written over and errors raised so far -/
  faults : ℕ

inductive Act where
  | start (i : ℕ)
  | advance (i : ℕ)
  deriving DecidableEq

variable {K V : Type} {tasks : List (Task K V)} {w w' : World K V} {i j : ℕ} {entries : List (K × V)} {k : K}

namespace Prog

/-- Read objects one after the other. -/
def readAll : List K → (List V → Prog K V) → Prog K V
  | [], next => next []
  | k :: ks, next => .read k fun v => readAll ks fun vs => next (v :: vs)

def writeAll : List (K × V) → Prog K V
  | [] => .done
  | e :: es => .write e.1 e.2 (writeAll es)

def removeAll : List K → Prog K V
  | [] => .done
  | k :: ks => .remove k (removeAll ks)

end Prog

namespace World

def init (store : K → Option V) : World K V := ⟨store, fun _ => none, 0⟩

def setStatus (w : World K V) (i : ℕ) (p : Prog K V) : World K V :=
  { w with status := update w.status i (some p) }

/-- The task at `i` ends with an error. -/
def fault (w : World K V) (i : ℕ) : World K V := { w.setStatus i .done with faults := w.faults + 1 }

/-- The next operation of the task at `i`, of which `p` is left. -/
def advance [DecidableEq K] (w : World K V) (i : ℕ) : Prog K V → Option (World K V)
  | .done => none
  | .fail => some (w.fault i)
  | .read k next =>
    match w.store k with
    | none => some (w.fault i)
    | some v => some (w.setStatus i (next v))
  | .write k v next =>
    if (w.store k).isSome then some (w.fault i)
    else some { w.setStatus i next with store := update w.store k (some v) }
  | .remove k next => some { w.setStatus i next with store := update w.store k none }

end World

open World

def step [DecidableEq K] (tasks : List (Task K V)) (w : World K V) : Act → Option (World K V)
  | .start i =>
    match tasks[i]?, w.status i with
    | some t, none => if ∀ k ∈ t.inputs, (w.store k).isSome then some (w.setStatus i t.body) else none
    | _, _ => none
  | .advance i => (w.status i).bind (w.advance i)

def Finished (tasks : List (Task K V)) (w : World K V) : Prop :=
  ∀ i < tasks.length, w.status i = some .done

theorem World.status_setStatus (w : World K V) (i : ℕ) (p : Prog K V) (j : ℕ) :
    (w.setStatus i p).status j = if j = i then some p else w.status j := update_apply ..

theorem step_start [DecidableEq K]
    (h : step tasks w (.start i) = some w') : ∃ t, tasks[i]? = some t ∧ w.status i = none ∧
      (∀ k ∈ t.inputs, (w.store k).isSome) ∧ w' = w.setStatus i t.body := by
  simp only [step] at h
  split at h
  · next t ht hstatus =>
    split at h
    · next hinputs => exact ⟨t, ht, hstatus, hinputs, (Option.some.inj h).symm⟩
    · cases h
  · cases h

theorem step_advance [DecidableEq K]
    (h : step tasks w (.advance i) = some w') : ∃ p, w.status i = some p ∧ w.advance i p = some w' :=
  Option.bind_eq_some_iff.mp h

/-! ### Bodies that do what a plan expects -/

namespace Prog

variable (val : K → Option V)

/-- The objects a body writes when it is given the objects `val` says. -/
def outs : Prog K V → List K
  | .done => []
  | .fail => []
  | .read k next =>
    match val k with
    | none => []
    | some v => (next v).outs
  | .write k _ next => k :: next.outs
  | .remove _ next => next.outs

def cost : Prog K V → ℕ
  | .done => 0
  | .fail => 1
  | .read k next =>
    match val k with
    | none => 1
    | some v => (next v).cost + 1
  | .write _ _ next => next.cost + 1
  | .remove _ next => next.cost + 1

/-- A body that reads only among `inputs`, writes what `val` says and has something to write after each
read. -/
def Follows (inputs : List K) : Prog K V → Prop
  | .done => True
  | .fail => False
  | .read k next => k ∈ inputs ∧ ∃ v, val k = some v ∧ (next v).outs val ≠ [] ∧ (next v).Follows inputs
  | .write k v next => val k = some v ∧ next.Follows inputs
  | .remove _ _ => False

variable {val} {inputs ks : List K} {p : Prog K V} {vs : List V}

theorem val_isSome_of_mem_outs (h : p.Follows val inputs) (hk : k ∈ p.outs val) :
    (val k).isSome := by
  induction p with
  | done => cases hk
  | fail => cases hk
  | read l next ih =>
    obtain ⟨_, v, hv, _, hnext⟩ := h
    rw [outs, hv] at hk
    exact ih v hnext hk
  | write l v next ih =>
    obtain ⟨hv, hnext⟩ := h
    rcases mem_cons.mp hk with rfl | hk
    · rw [hv]
      rfl
    · exact ih hnext hk
  | remove l next _ => exact absurd h id

theorem eq_done_of_outs_eq_nil (h : p.Follows val inputs) (houts : p.outs val = []) :
    p = .done := by
  cases p with
  | done => rfl
  | fail => exact absurd h id
  | read k next =>
    obtain ⟨_, v, hv, hne, _⟩ := h
    rw [outs, hv] at houts
    exact absurd houts hne
  | write k v next => cases houts
  | remove k next => exact absurd h id

/-- Reading declared objects: the rest gets the objects `val` says. -/
theorem outs_readAll (hval : List.Forall₂ (fun k v => val k = some v) ks vs)
    (next : List V → Prog K V) : (readAll ks next).outs val = (next vs).outs val := by
  induction hval generalizing next with
  | nil => rfl
  | cons hk _ ih =>
    rw [readAll, outs, hk]
    exact ih _

theorem follows_readAll (hval : List.Forall₂ (fun k v => val k = some v) ks vs)
    (hinputs : ∀ k ∈ ks, k ∈ inputs) {next : List V → Prog K V} (houts : (next vs).outs val ≠ [])
    (hnext : (next vs).Follows val inputs) : (readAll ks next).Follows val inputs := by
  induction hval generalizing next with
  | nil => exact hnext
  | @cons k v ks vs hk hvs ih =>
    refine ⟨hinputs k mem_cons_self, v, hk, ?_, ?_⟩
    · rw [outs_readAll hvs]
      exact houts
    · exact ih (fun k hk => hinputs k (mem_cons_of_mem _ hk)) houts hnext

theorem outs_writeAll (es : List (K × V)) : (writeAll es).outs val = es.map Prod.fst := by
  induction es with
  | nil => rfl
  | cons e es ih => rw [writeAll, outs, ih, map_cons]

theorem follows_writeAll {es : List (K × V)} (h : ∀ e ∈ es, val e.1 = some e.2) :
    (writeAll es).Follows val inputs := by
  induction es with
  | nil => exact trivial
  | cons e es ih =>
    exact ⟨h e mem_cons_self, ih fun e' he' => h e' (mem_cons_of_mem e he')⟩

end Prog

/-! ### Plans -/

/-- What a task declares is there before the list or written by a task in front of it. -/
def Available (val : K → Option V) : (K → Prop) → List (Task K V) → Prop
  | _, [] => True
  | there, t :: ts =>
    (∀ k ∈ t.inputs, there k) ∧ Available val (fun k => there k ∨ k ∈ t.body.outs val) ts

/-- What a task writes is needed behind the list or declared by a task behind it. -/
def Consumed (val : K → Option V) (needed : K → Prop) : List (Task K V) → Prop
  | [] => True
  | t :: ts =>
    (∀ k ∈ t.body.outs val, needed k ∨ ∃ u ∈ ts, k ∈ u.inputs) ∧ Consumed val needed ts

def generated (val : K → Option V) (tasks : List (Task K V)) : List K :=
  tasks.flatMap fun t => t.body.outs val

structure Plan (val initial : K → Option V) (makers : List (Task K V)) (out : K) : Prop where
  follows : ∀ t ∈ makers, t.body.Follows val t.inputs ∧ t.body.outs val ≠ []
  nodup : (generated val makers).Nodup
  available : Available val (fun k => k ∉ generated val makers ∧ (val k).isSome) makers
  consumed : Consumed val (fun k => k = out) makers
  produced : (val out).isSome
  initial_generated : ∀ k ∈ generated val makers, initial k = none
  initial_other : ∀ k, k ∉ generated val makers → initial k = val k

/-- The tasks of a plan; with `rm` a last one that removes objects. -/
def tasksOf (makers : List (Task K V)) (out : K) : Option (List K) → List (Task K V)
  | none => makers
  | some rm => makers ++ [⟨[out], .removeAll rm⟩]

section Lists

variable {val : K → Option V} {tasks ts us : List (Task K V)} {there needed : K → Prop} {i : ℕ} {t : Task K V}
  {k : K}

theorem available_append : Available val there (ts ++ us) ↔
      Available val there ts ∧ Available val (fun k => there k ∨ k ∈ generated val ts) us := by
  induction ts generalizing there with
  | nil =>
    have hthere : (fun k => there k ∨ k ∈ generated val ([] : List (Task K V))) = there := by
      funext k
      exact propext ⟨fun h => h.resolve_right not_mem_nil, .inl⟩
    rw [nil_append, hthere]
    exact ⟨fun h => ⟨trivial, h⟩, fun h => h.2⟩
  | cons t ts ih =>
    have hthere : (fun k => (there k ∨ k ∈ t.body.outs val) ∨ k ∈ generated val ts) =
        fun k => there k ∨ k ∈ generated val (t :: ts) := by
      funext k
      rw [generated, generated, flatMap_cons, mem_append, or_assoc]
    rw [cons_append, Available, Available, ih, hthere, and_assoc]

theorem consumed_append : Consumed val needed (ts ++ us) ↔
      Consumed val (fun k => needed k ∨ ∃ u ∈ us, k ∈ u.inputs) ts ∧ Consumed val needed us := by
  induction ts with
  | nil => exact ⟨fun h => ⟨trivial, h⟩, fun h => h.2⟩
  | cons t ts ih =>
    have hneeded : ∀ k, (needed k ∨ ∃ u ∈ ts ++ us, k ∈ u.inputs) ↔
        ((needed k ∨ ∃ u ∈ us, k ∈ u.inputs) ∨ ∃ u ∈ ts, k ∈ u.inputs) := by
      intro k
      simp only [mem_append, or_and_right, exists_or]
      rw [or_assoc]
      exact or_congr Iff.rfl or_comm
    rw [cons_append, Consumed, Consumed, ih, and_assoc]
    simp only [hneeded]

theorem mem_generated : k ∈ generated val tasks ↔
    ∃ (i : ℕ) (t : Task K V), tasks[i]? = some t ∧ k ∈ t.body.outs val := by
  rw [generated, mem_flatMap]
  constructor
  · rintro ⟨t, ht, hk⟩
    obtain ⟨i, hi⟩ := mem_iff_getElem?.mp ht
    exact ⟨i, t, hi, hk⟩
  · rintro ⟨i, t, hi, hk⟩
    exact ⟨t, mem_of_getElem? hi, hk⟩

theorem exists_earlier (h : Available val there tasks)
    (ht : tasks[i]? = some t) (hk : k ∈ t.inputs) :
    there k ∨ ∃ j u, j < i ∧ tasks[j]? = some u ∧ k ∈ u.body.outs val := by
  induction tasks generalizing there i with
  | nil => cases ht
  | cons s tasks ih =>
    cases i with
    | zero =>
      cases ht
      exact .inl (h.1 k hk)
    | succ i =>
      rcases ih h.2 ht with (hthere | hs) | ⟨j, u, hj, hu, hku⟩
      · exact .inl hthere
      · exact .inr ⟨0, s, succ_pos i, rfl, hs⟩
      · exact .inr ⟨j + 1, u, succ_lt_succ hj, hu, hku⟩

theorem exists_later (h : Consumed val needed tasks)
    (ht : tasks[i]? = some t) (hk : k ∈ t.body.outs val) :
    needed k ∨ ∃ j u, i < j ∧ tasks[j]? = some u ∧ k ∈ u.inputs := by
  induction tasks generalizing i with
  | nil => cases ht
  | cons s tasks ih =>
    cases i with
    | zero =>
      cases ht
      rcases h.1 k hk with hneeded | ⟨u, hu, hku⟩
      · exact .inl hneeded
      · obtain ⟨j, hj⟩ := mem_iff_getElem?.mp hu
        exact .inr ⟨j + 1, u, succ_pos j, hj, hku⟩
    | succ i =>
      rcases ih h.2 ht with hneeded | ⟨j, u, hj, hu, hku⟩
      · exact .inl hneeded
      · exact .inr ⟨j + 1, u, succ_lt_succ hj, hu, hku⟩

theorem outs_disjoint (h : (generated val tasks).Nodup) {u : Task K V} (ht : tasks[i]? = some t)
    (hu : tasks[j]? = some u) (hkt : k ∈ t.body.outs val) (hku : k ∈ u.body.outs val) : i = j := by
  have hpair := pairwise_iff_getElem.mp (nodup_flatMap.mp h).2
  obtain ⟨hi, rfl⟩ := List.getElem?_eq_some_iff.mp ht
  obtain ⟨hj, rfl⟩ := List.getElem?_eq_some_iff.mp hu
  rcases lt_trichotomy i j with hlt | heq | hgt
  · exact absurd hku (hpair i j hi hj hlt hkt)
  · exact heq
  · exact absurd hkt (hpair j i hj hi hgt hku)

theorem available_of_forall (h : ∀ t ∈ ts, ∀ k ∈ t.inputs, there k) :
    Available val there ts := by
  induction ts generalizing there with
  | nil => exact trivial
  | cons t ts ih =>
    exact ⟨h t mem_cons_self, ih fun u hu k hk => .inl (h u (mem_cons_of_mem t hu) k hk)⟩

theorem consumed_of_forall
    (h : ∀ k ∈ generated val ts, needed k) : Consumed val needed ts := by
  induction ts with
  | nil => exact trivial
  | cons t ts ih =>
    rw [generated, flatMap_cons, forall_mem_append] at h
    exact ⟨fun k hk => .inl (h.1 k hk), ih h.2⟩

theorem Consumed.mono {needed' : K → Prop} (h : Consumed val needed ts)
    (himp : ∀ k, needed k → needed' k) : Consumed val needed' ts := by
  induction ts with
  | nil => exact trivial
  | cons t ts ih => exact ⟨fun k hk => Or.imp_left (himp k) (h.1 k hk), ih h.2⟩

/-- Tasks with good bodies that write exactly `names`, in this order. -/
structure Makes (val : K → Option V) (ts : List (Task K V)) (names : List K) : Prop where
  follows : ∀ t ∈ ts, t.body.Follows val t.inputs ∧ t.body.outs val ≠ []
  generated : generated val ts = names

theorem Makes.append {names names' : List K} (ht : Makes val ts names)
    (hu : Makes val us names') : Makes val (ts ++ us) (names ++ names') := by
  constructor
  · intro t hmem
    exact (mem_append.mp hmem).elim (ht.follows t) (hu.follows t)
  · rw [← ht.generated, ← hu.generated]
    exact flatMap_append

theorem Makes.nil : Makes val ([] : List (Task K V)) [] := by
  constructor
  · exact nofun
  · rfl

theorem Makes.single (h : t.body.Follows val t.inputs ∧ t.body.outs val = [k]) :
    Makes val [t] [k] := by
  constructor
  · intro u hu
    rw [mem_singleton.mp hu, h.2]
    exact ⟨h.1, cons_ne_nil _ _⟩
  · show t.body.outs val ++ [] = [k]
    rw [h.2, append_nil]

/-- A family of tasks that write one object each. -/
theorem Makes.map {ι : Type} {is : List ι} {task : ι → Task K V} {name : ι → K}
    (h : ∀ i ∈ is, (task i).body.Follows val (task i).inputs ∧ (task i).body.outs val = [name i]) :
    Makes val (is.map task) (is.map name) := by
  induction is with
  | nil => exact Makes.nil
  | cons i is ih =>
    exact (Makes.single (h i mem_cons_self)).append (ih fun j hj => h j (mem_cons_of_mem i hj))

/-- Tasks that lead from the objects `start` to the objects `last` and write `names`: what they declare is
there, and what they are given or write is declared by one of them or among the last. -/
structure Stages (val : K → Option V) (start names last : List K) (ts : List (Task K V)) : Prop where
  makes : Makes val ts names
  available : ∀ there : K → Prop, (∀ k ∈ start, there k) →
    Available val there ts ∧ ∀ k ∈ last, there k ∨ k ∈ generated val ts
  used : ∀ k ∈ start, k ∈ last ∨ ∃ u ∈ ts, k ∈ u.inputs
  consumed : Consumed val (fun k => k ∈ last) ts

namespace Stages

variable {start mid names names' last : List K}

theorem refl (start : List K) : Stages val start [] start [] :=
  ⟨.nil, fun _ h => ⟨trivial, fun k hk => .inl (h k hk)⟩, fun _ hk => .inl hk, trivial⟩

/-- Tasks that declare nothing but `start`, and all of it. -/
theorem level (h : Makes val ts names) (hinputs : ∀ t ∈ ts, ∀ k ∈ t.inputs, k ∈ start)
    (hused : ∀ k ∈ start, ∃ u ∈ ts, k ∈ u.inputs) : Stages val start names names ts := by
  refine ⟨h, fun there hthere => ⟨?_, fun k hk => .inr ?_⟩, fun k hk => .inr (hused k hk), ?_⟩
  · exact available_of_forall fun t ht k hk => hthere k (hinputs t ht k hk)
  · rwa [h.generated]
  · exact consumed_of_forall fun k hk => h.generated ▸ hk

theorem trans (h : Stages val start names mid ts) (h' : Stages val mid names' last us) :
    Stages val start (names ++ names') last (ts ++ us) := by
  refine ⟨h.makes.append h'.makes, fun there hthere => ?_, fun k hk => ?_, ?_⟩
  · obtain ⟨hts, hmid⟩ := h.available there hthere
    obtain ⟨hus, hlast⟩ := h'.available _ hmid
    refine ⟨available_append.mpr ⟨hts, hus⟩, fun k hk => ?_⟩
    rw [generated, flatMap_append, mem_append, ← or_assoc]
    exact hlast k hk
  · rcases h.used k hk with hmid | ⟨u, hu, hku⟩
    · exact (h'.used k hmid).imp_right fun ⟨u, hu, hku⟩ => ⟨u, mem_append_right ts hu, hku⟩
    · exact .inr ⟨u, mem_append_left us hu, hku⟩
  · exact consumed_append.mpr ⟨h.consumed.mono h'.used, h'.consumed⟩

theorem plan {initial : K → Option V} {out : K} (h : Stages val start names [out] ts) (hnodup : names.Nodup)
    (hstart : ∀ k ∈ start, k ∉ names ∧ (val k).isSome) (hout : (val out).isSome)
    (hnone : ∀ k ∈ names, initial k = none) (hother : ∀ k, k ∉ names → initial k = val k) :
    Plan val initial ts out := by
  rw [← h.makes.generated] at hnodup hstart hnone hother
  exact ⟨h.makes.follows, hnodup, (h.available _ hstart).1, h.consumed.mono fun k hk => mem_singleton.mp hk,
    hout, hnone, hother⟩

end Stages

end Lists

/-! ### Names with their objects -/

/-- The objects of a plan that adds `entries` to the objects there from the start. -/
def valOf [DecidableEq K] (initial : K → Option V) (entries : List (K × V)) (k : K) : Option V :=
  (entries.lookup k).or (initial k)

theorem valOf_of_notMem [DecidableEq K] (initial : K → Option V)
    (h : k ∉ entries.map Prod.fst) : valOf initial entries k = initial k := by
  have hlookup : entries.lookup k = none := by
    rw [lookup_eq_none_iff]
    intro e he
    rw [bne_iff_ne]
    rintro rfl
    exact h (mem_map_of_mem he)
  rw [valOf, hlookup, Option.none_or]

theorem valOf_of_mem [DecidableEq K] (initial : K → Option V) (hnodup : (entries.map Prod.fst).Nodup)
    {v : V} (h : (k, v) ∈ entries) : valOf initial entries k = some v := by
  have hlookup : entries.lookup k = some v := by
    induction entries with
    | nil => cases h
    | cons e entries ih =>
      rw [map_cons, nodup_cons] at hnodup
      rcases mem_cons.mp h with rfl | hmem
      · rw [lookup_cons_self]
      have hne : k ≠ e.1 := by
        intro hk
        exact hnodup.1 (hk ▸ mem_map_of_mem (f := Prod.fst) hmem)
      rw [lookup_cons, beq_eq_false_iff_ne.mpr hne]
      exact ih hnodup.2 hmem
  rw [valOf, hlookup, Option.some_or]

/-! ### What holds in every interleaving -/

section Runs

variable {val initial : K → Option V} {makers tasks : List (Task K V)} {out : K} {rm : Option (List K)}
  {w w' : World K V}
  {i : ℕ} {t : Task K V} {p : Prog K V} {a : Act} {as : List Act} {k : K}

/-- What is still to be done of a task. -/
def left (t : Task K V) (w : World K V) (i : ℕ) : Prog K V := (w.status i).getD t.body

def Pending (val : K → Option V) (makers : List (Task K V)) (w : World K V) (k : K) : Prop :=
  ∃ i t, makers[i]? = some t ∧ k ∈ (left t w i).outs val

/-- The plan is at work: the last task has not started. -/
structure Working (val : K → Option V) (makers : List (Task K V)) (w : World K V) : Prop where
  calm : w.faults = 0
  idle : ∀ i, makers.length ≤ i → w.status i = none
  follows : ∀ i t, makers[i]? = some t → (left t w i).Follows val t.inputs
  suffix : ∀ i t, makers[i]? = some t → (left t w i).outs val <:+ t.body.outs val
  inputs : ∀ i t, makers[i]? = some t → w.status i ≠ none → ∀ k ∈ t.inputs, (w.store k).isSome
  pending : ∀ k, Pending val makers w k → w.store k = none
  stored : ∀ k, ¬ Pending val makers w k → w.store k = val k

/-- The last task removes its objects. -/
structure Cleaning (val : K → Option V) (makers : List (Task K V)) (rm : List K) (w : World K V) : Prop where
  calm : w.faults = 0
  idle : ∀ i, makers.length < i → w.status i = none
  finished : Finished makers w
  removing : ∃ gone rest, rm = gone ++ rest ∧ w.status makers.length = some (.removeAll rest) ∧
    (∀ k ∈ gone, w.store k = none) ∧ ∀ k, k ∉ gone → w.store k = val k

def Inv (val : K → Option V) (makers : List (Task K V)) (rm : Option (List K)) (w : World K V) : Prop :=
  Working val makers w ∨ ∃ keys, rm = some keys ∧ Cleaning val makers keys w

theorem Inv.calm (h : Inv val makers rm w) : w.faults = 0 := by
  rcases h with h | ⟨_, _, h⟩
  all_goals exact h.calm

theorem working_init (h : Plan val initial makers out) : Working val makers (.init initial) := by
  have hpending : ∀ k, Pending val makers (.init initial) k ↔ k ∈ generated val makers := by
    intro k
    rw [mem_generated]
    rfl
  refine ⟨rfl, fun _ _ => rfl, fun i t ht => ?_, fun i t _ => ?_, fun i t _ hs => absurd rfl hs,
    fun k hk => ?_, fun k hk => ?_⟩
  · exact (h.follows t (mem_of_getElem? ht)).1
  · exact suffix_refl _
  · exact h.initial_generated k ((hpending k).mp hk)
  · exact h.initial_other k fun hmem => hk ((hpending k).mpr hmem)

theorem left_setStatus_self (t : Task K V) (w : World K V) (i : ℕ) (p : Prog K V) :
    left t (w.setStatus i p) i = p := by
  rw [left, status_setStatus, if_pos rfl]
  rfl

theorem left_setStatus_ne (t : Task K V) (w : World K V) (p : Prog K V) (h : j ≠ i) :
    left t (w.setStatus i p) j = left t w j := by
  rw [left, status_setStatus, if_neg h, left]

/-- A statement about what is left of the tasks, when one of them has gone on. -/
theorem forall_left {P : ℕ → Task K V → Prog K V → Prop} (ht : makers[i]? = some t)
    (hself : P i t p)
    (hother : ∀ j u, makers[j]? = some u → j ≠ i → P j u (left u w j)) :
    ∀ j u, makers[j]? = some u → P j u (left u (w.setStatus i p) j) := by
  intro j u hu
  by_cases hj : j = i
  · subst hj
    rw [ht] at hu
    cases hu
    rw [left_setStatus_self]
    exact hself
  · rw [left_setStatus_ne u w p hj]
    exact hother j u hu hj

theorem Working.store_eq_val (h : Working val makers w) (hfinished : Finished makers w) (k : K) :
    w.store k = val k := by
  apply h.stored
  rintro ⟨i, t, ht, hk⟩
  rw [left, hfinished i (List.getElem?_eq_some_iff.mp ht).1] at hk
  cases hk

theorem getElem?_tasksOf_lt (h : i < makers.length) : (tasksOf makers out rm)[i]? = makers[i]? := by
  cases rm with
  | none => rfl
  | some keys => exact List.getElem?_append_left h

theorem getElem?_tasksOf_ge (h : makers.length ≤ i)
    (ht : (tasksOf makers out rm)[i]? = some t) :
    i = makers.length ∧ ∃ keys, rm = some keys ∧ t = ⟨[out], .removeAll keys⟩ := by
  cases rm with
  | none =>
    rw [tasksOf, List.getElem?_eq_none h] at ht
    cases ht
  | some keys =>
    rw [tasksOf, List.getElem?_append_right h] at ht
    have hi : i - makers.length = 0 := by
      have := (List.getElem?_eq_some_iff.mp ht).1
      simpa using this
    rw [hi] at ht
    exact ⟨by omega, keys, rfl, (Option.some.inj ht).symm⟩

/-- The objects at the end. -/
theorem store_of_finished [DecidableEq K] (h : Inv val makers rm w)
    (hfinished : Finished (tasksOf makers out rm) w) (k : K) :
    w.store k = if k ∈ rm.getD [] then none else val k := by
  rcases h with h | ⟨keys, rfl, h⟩
  · cases rm with
    | none => rw [if_neg (by exact not_mem_nil), h.store_eq_val hfinished k]
    | some keys =>
      have hlast := hfinished makers.length (by rw [tasksOf, length_append]; exact lt_succ_self _)
      rw [h.idle _ (le_refl _)] at hlast
      cases hlast
  · have hlast := hfinished makers.length (by rw [tasksOf, length_append]; exact lt_succ_self _)
    obtain ⟨gone, rest, hkeys, hcleaner, hgone, hkept⟩ := h.removing
    rw [hlast] at hcleaner
    cases rest with
    | nil =>
      rw [append_nil] at hkeys
      subst hkeys
      show w.store k = if k ∈ keys then none else val k
      by_cases hk : k ∈ keys
      · rw [if_pos hk, hgone k hk]
      · rw [if_neg hk, hkept k hk]
    | cons l rest => cases hcleaner

theorem World.exists_advance [DecidableEq K] (w : World K V) (i : ℕ) (h : p ≠ .done) :
    ∃ w', w.advance i p = some w' := by
  cases p with
  | done => exact absurd rfl h
  | fail => exact ⟨_, rfl⟩
  | read k next | write k v next =>
    rw [advance]
    split
    all_goals exact ⟨_, rfl⟩
  | remove k next => exact ⟨_, rfl⟩

/-- The operations a task still has to perform, its start among them. -/
def costAt (val : K → Option V) (t : Task K V) : Option (Prog K V) → ℕ
  | none => t.body.cost val + 1
  | some p => p.cost val

def work (val : K → Option V) (tasks : List (Task K V)) (w : World K V) : ℕ :=
  ∑ i ∈ Finset.range tasks.length, (tasks[i]?.map fun t => costAt val t (w.status i)).getD 0

theorem work_lt (ht : tasks[i]? = some t) (hother : ∀ j, j ≠ i → w'.status j = w.status j)
    (hlt : costAt val t (w'.status i) < costAt val t (w.status i)) :
    work val tasks w' < work val tasks w := by
  have hi : i < tasks.length := (List.getElem?_eq_some_iff.mp ht).1
  refine Finset.sum_lt_sum (fun j _ => ?_) ⟨i, Finset.mem_range.mpr hi, ?_⟩
  · by_cases hj : j = i
    · subst hj
      rw [ht]
      exact le_of_lt hlt
    · rw [hother j hj]
  · rw [ht]
    exact hlt

/-- The position at which a step is made goes on by one operation. -/
theorem work_setStatus_lt (ht : tasks[i]? = some t)
    (hlt : p.cost val < costAt val t (w.status i)) (store : K → Option V) :
    work val tasks { w.setStatus i p with store := store } < work val tasks w := by
  refine work_lt ht (fun j hj => by rw [status_setStatus, if_neg hj]) ?_
  have hstatus : (w.setStatus i p).status i = some p := by rw [status_setStatus, if_pos rfl]
  rw [hstatus]
  exact hlt

theorem Cleaning.step [DecidableEq K] {keys : List K} (h : Cleaning val makers keys w)
    (hstep : step (tasksOf makers out (some keys)) w a = some w') : Cleaning val makers keys w' ∧
      work val (tasksOf makers out (some keys)) w' < work val (tasksOf makers out (some keys)) w := by
  obtain ⟨gone, rest, hkeys, hcleaner, hgone, hkept⟩ := h.removing
  have hstarted : ∀ i, i ≤ makers.length → w.status i ≠ none := by
    intro i hi hnone
    rcases lt_or_eq_of_le hi with hlt | rfl
    · rw [h.finished i hlt] at hnone
      cases hnone
    · rw [hcleaner] at hnone
      cases hnone
  cases a with
  | start i =>
    obtain ⟨t, ht, hstatus, _, _⟩ := step_start hstep
    exfalso
    by_cases hi : i < makers.length
    · exact hstarted i (le_of_lt hi) hstatus
    · obtain ⟨rfl, _⟩ := getElem?_tasksOf_ge (Nat.le_of_not_lt hi) ht
      exact hstarted _ (le_refl _) hstatus
  | advance i =>
    obtain ⟨p, hstatus, hadvance⟩ := step_advance hstep
    rcases lt_trichotomy i makers.length with hlt | rfl | hgt
    · rw [h.finished i hlt] at hstatus
      cases hstatus
      cases hadvance
    · rw [hcleaner] at hstatus
      cases hstatus
      cases rest with
      | nil => cases hadvance
      | cons k rest =>
        cases hadvance
        refine ⟨⟨h.calm, fun j hj => ?_, fun j hj => ?_, gone ++ [k], rest, ?_, ?_, fun l hl => ?_,
          fun l hl => ?_⟩, work_setStatus_lt List.getElem?_concat_length ?_ _⟩
        · rw [status_setStatus, if_neg (by omega)]
          exact h.idle j hj
        · rw [status_setStatus, if_neg (by omega)]
          exact h.finished j hj
        · rw [hkeys, append_assoc]
          rfl
        · rw [status_setStatus, if_pos rfl]
        · show update w.store k none l = none
          by_cases hlk : l = k
          · rw [hlk, update_self]
          · rw [update_of_ne hlk]
            exact hgone l ((mem_append.mp hl).resolve_right fun hmem => hlk (mem_singleton.mp hmem))
        · rw [mem_append, mem_singleton, not_or] at hl
          show update w.store k none l = val l
          rw [update_of_ne hl.2]
          exact hkept l hl.1
        · rw [hcleaner]
          exact lt_succ_self _
    · rw [h.idle i hgt] at hstatus
      cases hstatus

section

variable (hplan : Plan val initial makers out)
include hplan

/-- Once the last object is there, everything in front of it has been written. -/
theorem Working.left_outs_eq_nil (h : Working val makers w) (hout : (w.store out).isSome)
    (ht : makers[i]? = some t) : (left t w i).outs val = [] := by
  -- by induction on the number of tasks behind it: what it still has to write is needed by one of them
  induction hn : makers.length - i using Nat.strongRecOn generalizing i t with
  | _ n ih =>
    by_contra hne
    obtain ⟨k, hk⟩ := exists_mem_of_ne_nil _ hne
    have hpending : Pending val makers w k := ⟨i, t, ht, hk⟩
    have habsent : w.store k = none := h.pending k hpending
    rcases exists_later hplan.consumed ht ((h.suffix i t ht).subset hk) with rfl | ⟨j, u, hij, hu, hku⟩
    · rw [habsent] at hout
      cases hout
    have hj : j < makers.length := (List.getElem?_eq_some_iff.mp hu).1
    have hnil := ih (makers.length - j) (by omega) hu rfl
    have hstarted : w.status j ≠ none := by
      intro hstatus
      rw [left, hstatus] at hnil
      exact (hplan.follows u (mem_of_getElem? hu)).2 hnil
    have hthere := h.inputs j u hu hstarted k hku
    rw [habsent] at hthere
    cases hthere

theorem Working.status_eq_done (h : Working val makers w) (ht : makers[i]? = some t)
    (hnil : (left t w i).outs val = []) : w.status i = some .done := by
  have hdone := Prog.eq_done_of_outs_eq_nil (h.follows i t ht) hnil
  cases hstatus : w.status i with
  | none =>
    rw [left, hstatus] at hnil
    exact absurd hnil (hplan.follows t (mem_of_getElem? ht)).2
  | some p =>
    rw [left, hstatus] at hdone
    exact congrArg some hdone

/-- The objects a task declares are there once the tasks in front of it have finished. -/
theorem Working.inputs_there (h : Working val makers w) (ht : makers[i]? = some t)
    (hdone : ∀ j < i, w.status j = some .done) : ∀ k ∈ t.inputs, (w.store k).isSome := by
  intro k hk
  rcases exists_earlier hplan.available ht hk with ⟨hother, hval⟩ | ⟨j, u, hj, hu, hku⟩
  · rw [h.stored k ?_]
    · exact hval
    · rintro ⟨l, s, hs, hkl⟩
      exact hother (mem_generated.mpr ⟨l, s, hs, (h.suffix l s hs).subset hkl⟩)
  · rw [h.stored k ?_]
    · exact Prog.val_isSome_of_mem_outs (hplan.follows u (mem_of_getElem? hu)).1 hku
    · rintro ⟨l, s, hs, hkl⟩
      have hlj : l = j := outs_disjoint hplan.nodup hs hu ((h.suffix l s hs).subset hkl) hku
      subst hlj
      rw [left, hdone l hj] at hkl
      cases hkl

variable [DecidableEq K]

/-- A task goes on, and may have written objects. -/
theorem Working.goOn (h : Working val makers w) (ht : makers[i]? = some t) {written : List K}
    {store : K → Option V} (hfollows : p.Follows val t.inputs)
    (houts : (left t w i).outs val = written ++ p.outs val) (hinputs : ∀ k ∈ t.inputs, (w.store k).isSome)
    (hstore : ∀ k, store k = if k ∈ written then val k else w.store k) :
    Working val makers { w.setStatus i p with store := store } := by
  have hi : i < makers.length := (List.getElem?_eq_some_iff.mp ht).1
  have hsuffix := h.suffix i t ht
  rw [houts] at hsuffix
  have hnodup := ((nodup_flatMap.mp hplan.nodup).1 t (mem_of_getElem? ht)).sublist hsuffix.sublist
  -- what was written was pending here and nowhere else
  have hrest : ∀ j u, makers[j]? = some u →
      ∀ l, l ∈ (left u (w.setStatus i p) j).outs val ↔ l ∈ (left u w j).outs val ∧ l ∉ written := by
    refine forall_left (P := fun j u q => ∀ l, l ∈ q.outs val ↔ l ∈ (left u w j).outs val ∧ l ∉ written) ht
      (fun l => ?_) fun j u hu hj l => ?_
    · rw [houts, mem_append]
      exact ⟨fun hl => ⟨.inr hl, fun hmem => disjoint_of_nodup_append hnodup hmem hl⟩,
        fun hl => hl.1.resolve_left hl.2⟩
    · refine ⟨fun hl => ⟨hl, fun hmem => hj ?_⟩, And.left⟩
      exact outs_disjoint hplan.nodup hu ht ((h.suffix j u hu).subset hl)
        (hsuffix.subset (mem_append_left _ hmem))
  have hpending : ∀ l, Pending val makers { w.setStatus i p with store := store } l ↔
      Pending val makers w l ∧ l ∉ written := by
    intro l
    constructor
    · rintro ⟨j, u, hu, hl⟩
      obtain ⟨hl, hnot⟩ := (hrest j u hu l).mp hl
      exact ⟨⟨j, u, hu, hl⟩, hnot⟩
    · rintro ⟨⟨j, u, hu, hl⟩, hnot⟩
      exact ⟨j, u, hu, (hrest j u hu l).mpr ⟨hl, hnot⟩⟩
  refine ⟨h.calm, fun j hj => ?_, ?_, ?_, fun j u hu hs l hl => ?_, fun l hl => ?_, fun l hl => ?_⟩
  · rw [status_setStatus, if_neg (by omega)]
    exact h.idle j hj
  · exact forall_left (P := fun _ u q => q.Follows val u.inputs) ht hfollows fun j u hu _ => h.follows j u hu
  · exact forall_left (P := fun _ u q => q.outs val <:+ u.body.outs val) ht
      ((suffix_append _ _).trans hsuffix) fun j u hu _ => h.suffix j u hu
  · -- an input is there before
    have hthere : (w.store l).isSome := by
      by_cases hj : j = i
      · subst hj
        rw [ht] at hu
        cases hu
        exact hinputs l hl
      · refine h.inputs j u hu ?_ l hl
        rwa [status_setStatus, if_neg hj] at hs
    have hnot : l ∉ written := by
      intro hmem
      rw [h.pending l ⟨i, t, ht, houts ▸ mem_append_left _ hmem⟩] at hthere
      cases hthere
    show (store l).isSome
    rwa [hstore, if_neg hnot]
  · obtain ⟨hwas, hnot⟩ := (hpending l).mp hl
    exact ((hstore l).trans (if_neg hnot)).trans (h.pending l hwas)
  · refine (hstore l).trans ?_
    split
    · rfl
    · next hnot => exact h.stored l fun hwas => hl ((hpending l).mpr ⟨hwas, hnot⟩)

/-- A task starts or has read an object. -/
theorem Working.setStatus (h : Working val makers w) (ht : makers[i]? = some t)
    (hfollows : p.Follows val t.inputs) (hp : p.outs val = (left t w i).outs val)
    (hinputs : ∀ k ∈ t.inputs, (w.store k).isSome) : Working val makers (w.setStatus i p) :=
  h.goOn hplan ht hfollows (show _ = [] ++ p.outs val from hp.symm) hinputs fun _ => (if_neg not_mem_nil).symm

theorem Working.start (h : Working val makers w)
    (hstep : step (tasksOf makers out rm) w (.start i) = some w') :
    Inv val makers rm w' ∧ work val (tasksOf makers out rm) w' < work val (tasksOf makers out rm) w := by
  obtain ⟨t, ht, hstatus, hinputs, rfl⟩ := step_start hstep
  refine ⟨?_, work_setStatus_lt ht (by rw [hstatus]; exact lt_succ_self _) w.store⟩
  by_cases hi : i < makers.length
  · rw [getElem?_tasksOf_lt hi] at ht
    have hleft : left t w i = t.body := by rw [left, hstatus]; rfl
    exact .inl (h.setStatus hplan ht (hplan.follows t (mem_of_getElem? ht)).1 (by rw [hleft]) hinputs)
  · obtain ⟨rfl, keys, rfl, rfl⟩ := getElem?_tasksOf_ge (Nat.le_of_not_lt hi) ht
    have hfinished : Finished makers w := by
      intro j hj
      have hu : makers[j]? = some makers[j] := List.getElem?_eq_getElem hj
      exact h.status_eq_done hplan hu (h.left_outs_eq_nil hplan (hinputs out mem_cons_self) hu)
    refine .inr ⟨keys, rfl, h.calm, fun j hj => ?_, fun j hj => ?_, [], keys, rfl, ?_, ?_, fun k _ => ?_⟩
    · rw [status_setStatus, if_neg (by omega)]
      exact h.idle j (by omega)
    · rw [status_setStatus, if_neg (by omega)]
      exact hfinished j hj
    · rw [status_setStatus, if_pos rfl]
    · exact nofun
    · exact h.store_eq_val hfinished k

theorem Working.advance (h : Working val makers w)
    (hstep : step (tasksOf makers out rm) w (.advance i) = some w') :
    Working val makers w' ∧ work val (tasksOf makers out rm) w' < work val (tasksOf makers out rm) w := by
  obtain ⟨p, hstatus, hadvance⟩ := step_advance hstep
  have hi : i < makers.length := by
    by_contra hge
    rw [h.idle i (Nat.le_of_not_lt hge)] at hstatus
    cases hstatus
  have ht : makers[i]? = some makers[i] := List.getElem?_eq_getElem hi
  have ht' : (tasksOf makers out rm)[i]? = some makers[i] := (getElem?_tasksOf_lt hi).trans ht
  have hleft : left makers[i] w i = p := by rw [left, hstatus]; rfl
  have hfollows := h.follows i _ ht
  rw [hleft] at hfollows
  have hinputs := h.inputs i _ ht (by rw [hstatus]; exact Option.some_ne_none p)
  cases p with
  | done => cases hadvance
  | fail | remove k next => exact absurd hfollows id
  | read k next =>
    obtain ⟨hk, v, hv, _, hnext⟩ := hfollows
    have hstore : w.store k = some v := by
      rw [← hv]
      apply h.stored
      intro hpending
      have hthere := hinputs k hk
      rw [h.pending k hpending] at hthere
      cases hthere
    rw [World.advance, hstore] at hadvance
    cases hadvance
    refine ⟨h.setStatus hplan ht hnext ?_ hinputs, work_setStatus_lt ht' ?_ w.store⟩
    · rw [hleft, Prog.outs, hv]
    · rw [hstatus, costAt, Prog.cost, hv]
      exact lt_succ_self _
  | write k v next =>
    have habsent : w.store k = none := h.pending k ⟨i, _, ht, by rw [hleft]; exact mem_cons_self⟩
    rw [World.advance, habsent, if_neg (by simp)] at hadvance
    cases hadvance
    refine ⟨h.goOn hplan ht hfollows.2 (show _ = [k] ++ next.outs val by rw [hleft]; rfl) hinputs fun l => ?_,
      work_setStatus_lt ht' ?_ _⟩
    · simp only [update_apply, mem_singleton]
      split
      · next heq => rw [heq, hfollows.1]
      · rfl
    · rw [hstatus]
      exact lt_succ_self _

theorem inv_step (h : Inv val makers rm w) (hstep : step (tasksOf makers out rm) w a = some w') :
    Inv val makers rm w' ∧ work val (tasksOf makers out rm) w' < work val (tasksOf makers out rm) w := by
  rcases h with h | ⟨keys, rfl, h⟩
  · cases a with
    | start i => exact h.start hplan hstep
    | advance i => exact (h.advance hplan hstep).imp_left .inl
  · exact (h.step hstep).imp_left fun h' => .inr ⟨keys, rfl, h'⟩

theorem run_inv (hrun : run (step (tasksOf makers out rm)) (.init initial) as = some w) :
    Inv val makers rm w :=
  run_invariant (fun _ _ _ _ h hstep => (inv_step hplan h hstep).1) (.inl (working_init hplan)) hrun

/-! ### Every run comes to its end -/

theorem run_length_le (hrun : run (step (tasksOf makers out rm)) (init initial) as = some w) :
    as.length ≤ work val (tasksOf makers out rm) (init initial) := by
  refine (Nat.le_add_right _ _).trans (run_history (I := fun hist u => Inv val makers rm u ∧
    hist.length + work val (tasksOf makers out rm) u ≤ work val (tasksOf makers out rm) (init initial))
    ⟨.inl (working_init hplan), (zero_add _).le⟩ (fun hist a _ u u' _ _ hu hstep => ?_) hrun).2
  obtain ⟨hinv, hlt⟩ := inv_step hplan hu.1 hstep
  refine ⟨hinv, ?_⟩
  rw [length_append, length_singleton]
  omega

theorem exists_step_of_not_finished (h : Inv val makers rm w)
    (hnot : ¬ Finished (tasksOf makers out rm) w) : ∃ a w', step (tasksOf makers out rm) w a = some w' := by
  classical
  -- the first task that has not finished can go on
  have hex : ∃ i, i < (tasksOf makers out rm).length ∧ w.status i ≠ some .done := by
    by_contra hall
    exact hnot fun i hi => by_contra fun hne => hall ⟨i, hi, hne⟩
  obtain ⟨hi, hne⟩ := Nat.find_spec hex
  have hdone : ∀ j < Nat.find hex, w.status j = some .done := by
    intro j hj
    by_contra hj'
    exact Nat.find_min hex hj ⟨Nat.lt_trans hj hi, hj'⟩
  have ht : (tasksOf makers out rm)[Nat.find hex]? = some (tasksOf makers out rm)[Nat.find hex] :=
    List.getElem?_eq_getElem hi
  cases hstatus : w.status (Nat.find hex) with
  | some p =>
    obtain ⟨w', hw'⟩ := w.exists_advance (Nat.find hex) fun hp : p = .done => hne (hp ▸ hstatus)
    exact ⟨.advance _, w', by rw [step, hstatus]; exact hw'⟩
  | none =>
    suffices hinputs : ∀ k ∈ ((tasksOf makers out rm)[Nat.find hex]).inputs, (w.store k).isSome from
      ⟨.start (Nat.find hex), w.setStatus (Nat.find hex) (tasksOf makers out rm)[Nat.find hex].body,
        by simp only [step, ht, hstatus, if_pos hinputs]⟩
    rcases h with h | ⟨keys, rfl, h⟩
    · by_cases hlt : Nat.find hex < makers.length
      · rw [getElem?_tasksOf_lt hlt] at ht
        exact h.inputs_there hplan ht hdone
      obtain ⟨hlen, keys, _, hcleaner⟩ := getElem?_tasksOf_ge (Nat.le_of_not_lt hlt) ht
      rw [hcleaner]
      intro k hk
      rw [mem_singleton.mp hk, h.store_eq_val fun j hj => hdone j (hlen ▸ hj)]
      exact hplan.produced
    · obtain ⟨gone, rest, _, hrunning, _⟩ := h.removing
      by_cases hlt : Nat.find hex < makers.length
      · rw [h.finished _ hlt] at hstatus
        cases hstatus
      · rw [(getElem?_tasksOf_ge (Nat.le_of_not_lt hlt) ht).1, hrunning] at hstatus
        cases hstatus

theorem exists_finished (h : Inv val makers rm w) :
    ∃ as w', run (step (tasksOf makers out rm)) w as = some w' ∧ Finished (tasksOf makers out rm) w' := by
  obtain ⟨as, w', hrun, _, hfinished⟩ := exists_run_of_progress (I := Inv val makers rm)
    (work val (tasksOf makers out rm)) (fun w h hnot => by
      obtain ⟨a, w', hstep⟩ := exists_step_of_not_finished hplan h hnot
      exact ⟨a, w', hstep, inv_step hplan h hstep⟩) h
  exact ⟨as, w', hrun, hfinished⟩

end

end Runs

end Fly.Lib.Dataflow
