import Mathlib.Data.Finset.Lattice.Basic
import Fly.Lib.Threads
import Fly.Storage.DataService
import Fly.Storage.Database

/-!
# Freezing databases and the provenance of writes

The master decides which writes are registered.  A database that is frozen, or that a running task has
asked to freeze, takes no more of them, and an object takes only writes with the hash of its first one
until it is removed.  The tables are guarded by two mutexes, and the handlers of all connections work on
them at the same time.

* `FreezeTables` — the tables, with the functions of the source that work on them;
* `FreezeEvent`, `FreezeTables.step` — the protocol: what happens to the tables one locked section at a
  time, with what holds when it happens;
* `FreezeInstr`, `RegisterSection`, `FreezeHandler`, `freezeProtocol` — the handlers as threads; the
  section of `do_write_register` holds `frozen_dbs_mutex_` while it takes `provenance_mutex_`;
* `FollowsProtocol.run` — every interleaving of the handlers follows the protocol;
* `freeze_contract` — registrations, provenance, pending and confirmed freezes, over all interleavings.
-/

namespace Fly.Agent

open Fly.Lib Fly.Storage List Option Table AList

/-! ### The tables -/

/-- The part of `WriteRegisterMessage` that is looked at; the object's full name begins with the path of
the database. -/
structure WriteRegister where
  object : ObjectName
  writeContextHash : String

/-- `write_provenance_`: by database, and there by short name, the hash of the writes. -/
abbrev Provenance := Table String (Table String String)

namespace Provenance

variable (p : Provenance)

def lookup (object : ObjectName) : Option String :=
  (AList.lookup object.dbPath p).bind fun inner => inner.lookup object.shortName

def checkAndRegister (dbPath shortName hash : String) : Except String Provenance :=
  if hash = "" then .error ("Empty write_context_hash for " ++ dbPath ++ ":" ++ shortName)
  else
    let inner := (AList.lookup dbPath p).getD ∅
    match inner.lookup shortName with
    | none => .ok (p.insert dbPath (inner.insert shortName hash))
    | some existing =>
      if existing = hash then .ok p
      else .error ("Write provenance mismatch for " ++ dbPath ++ ":" ++ shortName ++
        ": existing hash=" ++ existing ++ " new hash=" ++ hash)

/-- An empty table of a database is dropped. -/
def erase (dbPath shortName : String) : Provenance :=
  match AList.lookup dbPath p with
  | none => p
  | some inner =>
    if (inner.erase shortName).entries.isEmpty then AList.erase dbPath p
    else p.insert dbPath (inner.erase shortName)

def cleanupForDb (dbPath : String) : Provenance := AList.erase dbPath p

end Provenance

structure FreezeTables where
  frozenDbs : Finset String := ∅
  pendingFrozenDbs : Table String ℕ := ∅
  writeProvenance : Provenance := ∅

namespace FreezeTables

variable (s : FreezeTables)

/-- Frozen, or about to be. -/
def Closed (dbPath : String) : Prop :=
  dbPath ∈ s.frozenDbs ∨ (s.pendingFrozenDbs.lookup dbPath).isSome

instance (dbPath : String) : Decidable (s.Closed dbPath) :=
  inferInstanceAs (Decidable (_ ∨ _))

/-- The databases that wait for a task. -/
def pendingOf (task : ℕ) : List String :=
  ((Table.pairs s.pendingFrozenDbs).filter fun entry => entry.2 = task).map Prod.fst

/-- The databases that are newly frozen come first. -/
def commitPendingFrozen (task : ℕ) : List String × FreezeTables :=
  ((s.pendingOf task).filter (· ∉ s.frozenDbs),
    { s with
      frozenDbs := s.frozenDbs ∪ (s.pendingOf task).toFinset
      pendingFrozenDbs := .filterValues s.pendingFrozenDbs (· ≠ task) })

def rollbackPendingFrozen (task : ℕ) : FreezeTables :=
  { s with pendingFrozenDbs := .filterValues s.pendingFrozenDbs (· ≠ task) }

end FreezeTables

open FreezeTables

/-! ### The protocol -/

/-- What happens in one locked section. -/
inductive FreezeEvent where
  | accepted (msg : WriteRegister)
  | refused (msg : WriteRegister) (message : String) (errorType : TaskErrorType)
  /-- a freeze request, in the mode that confirms at once -/
  | confirmed (dbPath : String) (task : ℕ)
  /-- a freeze request, in the mode that waits for the end of the task -/
  | pended (dbPath : String) (task : ℕ)
  | freezeRejected (dbPath : String) (task : ℕ)
  | masterFroze (dbPath : String)
  | committed (task : ℕ)
  | rolledBack (task : ℕ)
  | erased (object : ObjectName)
  | cleaned (dbPath : String)

namespace FreezeTables

def apply (s : FreezeTables) : FreezeEvent → FreezeTables
  | .accepted msg =>
    match s.writeProvenance.checkAndRegister msg.object.dbPath msg.object.shortName
      msg.writeContextHash with
    | .ok p => { s with writeProvenance := p }
    | .error _ => s
  | .confirmed dbPath _ | .masterFroze dbPath => { s with frozenDbs := insert dbPath s.frozenDbs }
  | .pended dbPath task => { s with pendingFrozenDbs := s.pendingFrozenDbs.insert dbPath task }
  | .committed task => (s.commitPendingFrozen task).2
  | .rolledBack task => s.rollbackPendingFrozen task
  | .erased object =>
    { s with writeProvenance := s.writeProvenance.erase object.dbPath object.shortName }
  | .cleaned dbPath => { s with writeProvenance := s.writeProvenance.cleanupForDb dbPath }
  | .refused .. | .freezeRejected .. => s

def Allowed (s : FreezeTables) : FreezeEvent → Prop
  | .accepted msg => ¬s.Closed msg.object.dbPath ∧ msg.writeContextHash ≠ "" ∧
      (s.writeProvenance.lookup msg.object = none ∨
        s.writeProvenance.lookup msg.object = some msg.writeContextHash)
  | .confirmed dbPath _ => ¬s.Closed dbPath
  | .pended dbPath _ => ¬s.Closed dbPath
  | .masterFroze dbPath => dbPath ∉ s.frozenDbs
  | .cleaned dbPath => dbPath ∈ s.frozenDbs
  | .committed _ | .rolledBack _ | .erased _ | .refused .. | .freezeRejected .. => True

instance (s : FreezeTables) (event : FreezeEvent) : Decidable (s.Allowed event) := by
  cases event <;> (dsimp only [Allowed]; infer_instance)

def step (s : FreezeTables) (event : FreezeEvent) : Option FreezeTables :=
  if s.Allowed event then some (s.apply event) else none

theorem step_eq_some_iff {s s' : FreezeTables} {event : FreezeEvent} :
    s.step event = some s' ↔ s.Allowed event ∧ s.apply event = s' := by
  unfold step
  split <;> simp [*]

end FreezeTables

/-! ### Lookups -/

namespace Provenance

variable {p p' : Provenance} {object other : ObjectName} {dbPath shortName hash : String}

theorem lookup_eq (p : Provenance) (object : ObjectName) :
    p.lookup object = ((AList.lookup object.dbPath p).getD ∅).lookup object.shortName := by
  unfold lookup
  cases AList.lookup object.dbPath p <;> rfl

/-- A registration goes through exactly when the object has no hash yet, or this one. -/
theorem checkAndRegister_spec (p : Provenance) (object : ObjectName) (hhash : hash ≠ "") :
    (∃ p', p.checkAndRegister object.dbPath object.shortName hash = .ok p' ∧
      (p.lookup object = none ∨ p.lookup object = some hash) ∧ p'.lookup object = some hash ∧
      (∀ other, p.lookup other = none ∨ p'.lookup other = p.lookup other) ∧
      ∀ dbPath, dbPath ≠ object.dbPath → AList.lookup dbPath p' = AList.lookup dbPath p) ∨
    (∃ message, p.checkAndRegister object.dbPath object.shortName hash = .error message) ∧
      ¬(p.lookup object = none ∨ p.lookup object = some hash) := by
  unfold checkAndRegister
  rw [if_neg hhash]
  dsimp only
  have hlookup := p.lookup_eq object
  cases hinner : ((AList.lookup object.dbPath p).getD ∅).lookup object.shortName with
  | none =>
    rw [hinner] at hlookup
    refine .inl ⟨_, rfl, .inl hlookup, ?_, fun other => ?_, fun dbPath hne => ?_⟩
    · rw [lookup_eq, lookup_insert_eq, if_pos rfl, getD_some, lookup_insert_eq, if_pos rfl]
    · rw [lookup_eq, lookup_eq, lookup_insert_eq]
      by_cases hdb : other.dbPath = object.dbPath
      · rw [if_pos hdb, getD_some, lookup_insert_eq, hdb]
        by_cases hname : other.shortName = object.shortName
        · rw [hname]
          exact .inl hinner
        · rw [if_neg hname]
          exact .inr rfl
      · rw [if_neg hdb]
        exact .inr rfl
    · rw [lookup_insert_eq, if_neg hne]
  | some existing =>
    rw [hinner] at hlookup
    by_cases heq : existing = hash
    · subst heq
      exact .inl ⟨p, if_pos rfl, .inr hlookup, hlookup, fun _ => .inr rfl, fun _ _ => rfl⟩
    · exact .inr ⟨⟨_, if_neg heq⟩, by simp [hlookup, heq]⟩

theorem lookup_erase (p : Provenance) (dbPath shortName : String) (object : ObjectName) :
    (p.erase dbPath shortName).lookup object =
      if object.dbPath = dbPath ∧ object.shortName = shortName then none else p.lookup object := by
  unfold erase
  cases hinner : AList.lookup dbPath p with
  | none =>
    show p.lookup object = _
    split
    · next hsame => rw [lookup_eq, hsame.1, hinner, getD_none, lookup_empty]
    · rfl
  | some inner =>
    have hlookup : object.dbPath = dbPath → p.lookup object = inner.lookup object.shortName := by
      intro hdb
      rw [lookup_eq, hdb, hinner, getD_some]
    have hkept : object.dbPath = dbPath → (inner.erase shortName).lookup object.shortName =
        if object.dbPath = dbPath ∧ object.shortName = shortName then none else p.lookup object := by
      intro hdb
      rw [lookup_erase_eq, hlookup hdb]
      exact ite_congr (by simp [hdb]) (fun _ => rfl) fun _ => rfl
    dsimp only
    by_cases hdb : object.dbPath = dbPath
    · rw [← hkept hdb]
      split
      · next hempty =>
        have hnil : (inner.erase shortName).entries = [] := isEmpty_iff.mp hempty
        rw [lookup_eq, lookup_erase_eq, if_pos hdb, getD_none, lookup_empty]
        show none = (inner.erase shortName).entries.dlookup object.shortName
        rw [hnil]
        rfl
      · rw [lookup_eq, lookup_insert_eq, if_pos hdb, getD_some]
    · have hother : ¬(object.dbPath = dbPath ∧ object.shortName = shortName) := fun h => hdb h.1
      split
      · rw [lookup_eq, lookup_eq, lookup_erase_eq, if_neg hdb]
      · rw [lookup_eq, lookup_eq, lookup_insert_eq, if_neg hdb]

theorem lookup_db_erase (h : AList.lookup dbPath p = none) (object : ObjectName) :
    AList.lookup dbPath (p.erase object.dbPath object.shortName) = none := by
  unfold erase
  cases hinner : AList.lookup object.dbPath p with
  | none => exact h
  | some inner =>
    have hne : dbPath ≠ object.dbPath := by
      rintro rfl
      rw [h] at hinner
      cases hinner
    dsimp only
    split
    · rw [lookup_erase_eq, if_neg hne, h]
    · rw [lookup_insert_eq, if_neg hne, h]

theorem lookup_cleanupForDb_of_ne (h : other.dbPath ≠ dbPath) :
    (p.cleanupForDb dbPath).lookup other = p.lookup other := by
  rw [lookup_eq, lookup_eq, cleanupForDb, lookup_erase_eq, if_neg h]

end Provenance

namespace FreezeTables

variable {s s' : FreezeTables} {event : FreezeEvent}

variable {dbPath : String} {task : ℕ} {events : List FreezeEvent} {msg : WriteRegister}

theorem mem_pendingOf : dbPath ∈ s.pendingOf task ↔ s.pendingFrozenDbs.lookup dbPath = some task := by
  unfold pendingOf
  rw [List.mem_map]
  constructor
  · rintro ⟨⟨path, owner⟩, hmem, rfl⟩
    obtain ⟨hpair, howner⟩ := List.mem_filter.mp hmem
    rw [mem_pairs] at hpair
    simpa using (decide_eq_true_eq.mp howner) ▸ hpair
  · intro h
    exact ⟨(dbPath, task), List.mem_filter.mpr ⟨mem_pairs.mpr h, by simp⟩, rfl⟩

/-- Frozen databases stay frozen. -/
theorem frozen_of_step (h : s.step event = some s') (hfrozen : dbPath ∈ s.frozenDbs) :
    dbPath ∈ s'.frozenDbs := by
  obtain ⟨-, rfl⟩ := step_eq_some_iff.mp h
  cases event with
  | accepted msg =>
    simp only [apply]
    split <;> exact hfrozen
  | confirmed path task | masterFroze path => exact Finset.mem_insert_of_mem hfrozen
  | committed task => exact Finset.mem_union_left _ hfrozen
  | _ => exact hfrozen

theorem frozen_of_run (h : run step s events = some s')
    (hfrozen : dbPath ∈ s.frozenDbs) : dbPath ∈ s'.frozenDbs :=
  run_invariant (I := fun t => dbPath ∈ t.frozenDbs)
    (fun _ _ _ _ hfrozen hstep => frozen_of_step hstep hfrozen) hfrozen h

/-! ### Provenance -/

/-- The hash of an object stays until the object is erased or its database cleaned. -/
theorem provenance_of_step (h : s.step event = some s') {object : ObjectName} {hash : String}
    (hhash : s.writeProvenance.lookup object = some hash) (herased : event ≠ .erased object)
    (hcleaned : event ≠ .cleaned object.dbPath) : s'.writeProvenance.lookup object = some hash := by
  obtain ⟨hallowed, rfl⟩ := step_eq_some_iff.mp h
  cases event with
  | accepted msg =>
    obtain ⟨-, hmsg, hmatch⟩ := hallowed
    rcases s.writeProvenance.checkAndRegister_spec msg.object hmsg with
      ⟨p', hok, -, -, hkept, -⟩ | ⟨-, hother⟩
    · simp only [apply, hok]
      exact ((hkept object).resolve_left (by rw [hhash]; exact some_ne_none _)).trans hhash
    · exact absurd hmatch hother
  | erased other =>
    refine (Provenance.lookup_erase ..).trans ((if_neg ?_).trans hhash)
    rintro ⟨hdb, hname⟩
    refine herased ?_
    cases other
    subst hdb hname
    rfl
  | cleaned path =>
    refine (Provenance.lookup_cleanupForDb_of_ne ?_).trans hhash
    rintro rfl
    exact hcleaned rfl
  | _ => exact hhash

/-- An accepted registration leaves its hash. -/
theorem provenance_of_accepted (h : s.step (.accepted msg) = some s') :
    s'.writeProvenance.lookup msg.object = some msg.writeContextHash := by
  obtain ⟨⟨-, hmsg, hmatch⟩, rfl⟩ := step_eq_some_iff.mp h
  rcases s.writeProvenance.checkAndRegister_spec msg.object hmsg with
    ⟨p', hok, -, hnew, -⟩ | ⟨-, hother⟩
  · simp only [apply, hok]
    exact hnew
  · exact absurd hmatch hother

/-- A database that is cleaned while registrations for it still follow does not exist. -/
theorem not_cleaned_of_accepted {t : FreezeTables}
    (hrun : run step s events = some t) (hlast : t.step (.accepted msg) = some s') :
    .cleaned msg.object.dbPath ∉ events := by
  intro hmem
  obtain ⟨before, after, rfl⟩ := append_of_mem hmem
  obtain ⟨u, v, -, hclean, hrest⟩ := run_append_cons.mp hrun
  have hfrozen := frozen_of_run hrest
    (frozen_of_step hclean (show msg.object.dbPath ∈ u.frozenDbs from (step_eq_some_iff.mp hclean).1))
  exact (step_eq_some_iff.mp hlast).1.1 (.inl hfrozen)

/-- **Two hashes for one object.**  Between registrations of an object with different hashes it was
erased. -/
theorem erased_between {before after : List FreezeEvent} {first second : WriteRegister}
    (h : run step s (before ++ .accepted first :: (events ++ .accepted second :: after)) = some s')
    (hobject : first.object = second.object)
    (hhash : first.writeContextHash ≠ second.writeContextHash) : .erased first.object ∈ events := by
  obtain ⟨_, t, -, hfirst, h⟩ := run_append_cons.mp h
  obtain ⟨u, _, hevents, hsecond, -⟩ := run_append_cons.mp h
  by_contra hnot
  have hclean := not_cleaned_of_accepted hevents hsecond
  have hkept : u.writeProvenance.lookup first.object = some first.writeContextHash := by
    refine run_invariant (I := fun t => t.writeProvenance.lookup first.object =
      some first.writeContextHash) (fun e he t t' hlookup hstep => ?_)
      (provenance_of_accepted hfirst) hevents
    refine provenance_of_step hstep hlookup (fun heq => hnot (heq ▸ he)) fun heq => hclean ?_
    rw [← hobject, ← heq]
    exact he
  rw [hobject] at hkept
  rcases (step_eq_some_iff.mp hsecond).1.2.2 with hnone | hsame
  · rw [hnone] at hkept
    cases hkept
  · rw [hsame, Option.some.injEq] at hkept
    exact hhash hkept.symm

/-- **After the cleaning.**  A cleaned database is frozen and has no provenance, from then on. -/
theorem provenance_of_cleaned (h : run step s events = some s') (hcleaned : .cleaned dbPath ∈ events) :
    lookup dbPath s'.writeProvenance = none := by
  obtain ⟨before, after, rfl⟩ := append_of_mem hcleaned
  obtain ⟨t, u, -, hclean, h⟩ := run_append_cons.mp h
  have hfrozen : dbPath ∈ u.frozenDbs := frozen_of_step hclean (step_eq_some_iff.mp hclean).1
  have hempty : lookup dbPath u.writeProvenance = none := by
    obtain ⟨-, rfl⟩ := step_eq_some_iff.mp hclean
    show AList.lookup dbPath (AList.erase dbPath t.writeProvenance) = none
    rw [lookup_erase_eq, if_pos rfl]
  refine (run_invariant (I := fun t => dbPath ∈ t.frozenDbs ∧
    AList.lookup dbPath t.writeProvenance = none) (fun e _ t t' hinv hstep => ?_)
    ⟨hfrozen, hempty⟩ h).2
  refine ⟨frozen_of_step hstep hinv.1, ?_⟩
  obtain ⟨hallowed, rfl⟩ := step_eq_some_iff.mp hstep
  cases e with
  | accepted msg =>
    obtain ⟨hopen, hmsg, -⟩ := hallowed
    have hne : dbPath ≠ msg.object.dbPath := by
      rintro rfl
      exact hopen (.inl hinv.1)
    rcases t.writeProvenance.checkAndRegister_spec msg.object hmsg with
      ⟨p', hok, -, -, -, hother⟩ | ⟨⟨message, herror⟩, -⟩
    · simp only [apply, hok]
      exact (hother dbPath hne).trans hinv.2
    · simp only [apply, herror]
      exact hinv.2
  | erased object => exact Provenance.lookup_db_erase hinv.2 object
  | cleaned path =>
    show lookup dbPath (erase path t.writeProvenance) = none
    rw [lookup_erase_eq, hinv.2]
    exact ite_self none
  | _ => exact hinv.2

/-! ### Pending freezes -/

theorem pendingFrozenDbs_end (s : FreezeTables) (task : ℕ) :
    (Table.filterValues s.pendingFrozenDbs (· ≠ task)).lookup dbPath =
      if s.pendingFrozenDbs.lookup dbPath = some task then none
      else s.pendingFrozenDbs.lookup dbPath := by
  rw [lookup_filterValues]
  cases s.pendingFrozenDbs.lookup dbPath with
  | none => rfl
  | some owner =>
    by_cases h : owner = task <;> simp [h]

section

variable {t : FreezeTables} (hpended : s.step (.pended dbPath task) = some t)
  (hrunning : .committed task ∉ events ∧ .rolledBack task ∉ events)

include hpended hrunning

/-- **While the task runs.**  The database waits for the task; it is frozen if the master freezes it
directly. -/
theorem pending_until_end (h : run step t events = some s') :
    s'.pendingFrozenDbs.lookup dbPath = some task ∧
      (dbPath ∈ s'.frozenDbs ↔ .masterFroze dbPath ∈ events) := by
  obtain ⟨hopen, rfl⟩ := step_eq_some_iff.mp hpended
  refine run_history (I := fun hist t => t.pendingFrozenDbs.lookup dbPath = some task ∧
    (dbPath ∈ t.frozenDbs ↔ .masterFroze dbPath ∈ hist)) ⟨?_, ?_⟩ ?_ h
  · show (s.pendingFrozenDbs.insert dbPath task).lookup dbPath = some task
    rw [lookup_insert_eq, if_pos rfl]
  · exact iff_of_false (fun hfrozen => hopen (.inl hfrozen)) not_mem_nil
  · rintro hist e rest t t' hsplit - ⟨hpending, hfrozen⟩ hstep
    obtain ⟨hallowed, rfl⟩ := step_eq_some_iff.mp hstep
    have hmem : e ∈ events := by
      rw [hsplit]
      exact mem_append_right _ mem_cons_self
    have hclosed : t.Closed dbPath := Or.inr (by rw [hpending]; rfl)
    have hkept : ∀ other, task ≠ other →
        (Table.filterValues t.pendingFrozenDbs (· ≠ other)).lookup dbPath = some task := by
      intro other hne
      rw [pendingFrozenDbs_end, hpending, if_neg (by simpa using hne)]
    rw [mem_append, mem_singleton, ← hfrozen]
    cases e with
    | accepted msg =>
      simp only [apply]
      split <;> simpa using hpending
    | confirmed path other =>
      have hne : dbPath ≠ path := by
        rintro rfl
        exact hallowed hclosed
      simpa [apply, hne] using hpending
    | masterFroze path => simpa [apply, or_comm, eq_comm] using hpending
    | pended path other =>
      have hne : dbPath ≠ path := by
        rintro rfl
        exact hallowed hclosed
      simpa [apply, lookup_insert_eq, hne] using hpending
    | committed other =>
      have hne : task ≠ other := by
        rintro rfl
        exact hrunning.1 hmem
      refine ⟨hkept other hne, ?_⟩
      show dbPath ∈ t.frozenDbs ∪ (t.pendingOf other).toFinset ↔ _
      simp [mem_pendingOf, hpending, hne]
    | rolledBack other =>
      have hne : task ≠ other := by
        rintro rfl
        exact hrunning.2 hmem
      exact ⟨hkept other hne, by simp [apply, rollbackPendingFrozen]⟩
    | _ => simpa [apply] using hpending

theorem lookup_of_ended (h : run step t events = some s') :
    (filterValues s'.pendingFrozenDbs (· ≠ task)).lookup dbPath = none := by
  rw [pendingFrozenDbs_end, if_pos (pending_until_end hpended hrunning h).1]

/-- **The task completes.** -/
theorem frozen_of_committed {after : List FreezeEvent}
    (h : run step t (events ++ .committed task :: after) = some s') :
    (after = [] → s'.pendingFrozenDbs.lookup dbPath = none) ∧ dbPath ∈ s'.frozenDbs := by
  obtain ⟨u, v, hevents, hlast, hafter⟩ := run_append_cons.mp h
  obtain ⟨-, rfl⟩ := step_eq_some_iff.mp hlast
  obtain ⟨hpending, -⟩ := pending_until_end hpended hrunning hevents
  refine ⟨?_, frozen_of_run hafter ?_⟩
  · rintro rfl
    cases hafter
    exact lookup_of_ended hpended hrunning hevents
  · exact Finset.mem_union_right _ (mem_toFinset.mpr (mem_pendingOf.mpr hpending))

/-- **The task fails, or its worker dies.** -/
theorem frozen_iff_of_rolledBack (h : run step t (events ++ [.rolledBack task]) = some s') :
    s'.pendingFrozenDbs.lookup dbPath = none ∧ (dbPath ∈ s'.frozenDbs ↔ .masterFroze dbPath ∈ events) := by
  obtain ⟨u, hevents, hlast⟩ := run_concat.mp h
  obtain ⟨-, rfl⟩ := step_eq_some_iff.mp hlast
  exact ⟨lookup_of_ended hpended hrunning hevents, (pending_until_end hpended hrunning hevents).2⟩

end

end FreezeTables

/-! ### The handlers as threads -/

structure FreezeState where
  tables : FreezeTables := {}
  events : List FreezeEvent := []

def FreezeState.record (s : FreezeState) (tables : FreezeTables) (event : FreezeEvent) : FreezeState :=
  ⟨tables, s.events ++ [event]⟩

structure FreezeOutside where
  /-- `dependency_update_mode` is 0 -/
  streaming : Bool := true
  running : Bool := true

inductive FreezeInstr where
  | doWriteRegister (msg : WriteRegister)
  | onDatabaseFreezeRequest (dbPath : String) (task : ℕ)
  | onMasterFreeze (dbPath : String)
  | commitPendingFrozen (task : ℕ)
  | rollbackPendingFrozen (task : ℕ)
  | provenanceErase (object : ObjectName)
  | cleanupProvenanceForDb (dbPath : String)

/-- `do_write_register`, under `frozen_dbs_mutex_`. -/
inductive RegisterSection where
  | checkFrozen (msg : WriteRegister)
  | checkProvenance (msg : WriteRegister)

open RegisterSection

namespace FreezeInstr

/-- What is done under `provenance_mutex_` alone. -/
def free : FreezeInstr → Bool
  | provenanceErase _ => true
  | cleanupProvenanceForDb _ => true
  | _ => false

def exec (e : FreezeOutside) (s : FreezeState) :
    FreezeInstr → Option (Outcome FreezeState FreezeInstr RegisterSection)
  | doWriteRegister msg => some (.enter (.checkFrozen msg))
  | onDatabaseFreezeRequest dbPath task =>
    if s.tables.Closed dbPath then
      some (.done (s.record s.tables (.freezeRejected dbPath task)) [])
    else if e.streaming then
      some (.done (s.record
        { s.tables with frozenDbs := insert dbPath s.tables.frozenDbs } (.confirmed dbPath task))
        [cleanupProvenanceForDb dbPath])
    else
      some (.done (s.record
        { s.tables with pendingFrozenDbs := s.tables.pendingFrozenDbs.insert dbPath task }
        (.pended dbPath task)) [])
  | onMasterFreeze dbPath =>
    -- a freeze that is pending does not count here
    if !e.running ∨ dbPath ∈ s.tables.frozenDbs then some (.done s [])
    else
      some (.done (s.record
        { s.tables with frozenDbs := insert dbPath s.tables.frozenDbs } (.masterFroze dbPath))
        [cleanupProvenanceForDb dbPath])
  | commitPendingFrozen task =>
    some (.done (s.record (s.tables.commitPendingFrozen task).2 (.committed task))
      ((s.tables.commitPendingFrozen task).1.map cleanupProvenanceForDb))
  | rollbackPendingFrozen task =>
    some (.done (s.record (s.tables.rollbackPendingFrozen task) (.rolledBack task)) [])
  | provenanceErase object =>
    some (.done (s.record
      { s.tables with
        writeProvenance := s.tables.writeProvenance.erase object.dbPath object.shortName }
      (.erased object)) [])
  | cleanupProvenanceForDb dbPath =>
    some (.done (s.record { s.tables with writeProvenance := s.tables.writeProvenance.cleanupForDb dbPath }
      (.cleaned dbPath)) [])

end FreezeInstr

open FreezeInstr

def RegisterSection.inside (_ : FreezeOutside) (s : FreezeState) :
    RegisterSection → Option (FreezeState × Option RegisterSection)
  | .checkFrozen msg =>
    if s.tables.Closed msg.object.dbPath then
      some (s.record s.tables
        (.refused msg ("Database frozen: " ++ msg.object.dbPath) .writeToFrozenDb), none)
    else if msg.writeContextHash = "" then
      some (s.record s.tables
        (.refused msg ("Empty write_context_hash for " ++ msg.object.full) .writeRegistrationFailed), none)
    else some (s, some (.checkProvenance msg))
  | .checkProvenance msg =>
    let (dbPath, shortName) := splitFullName msg.object.full
    match s.tables.writeProvenance.checkAndRegister dbPath shortName msg.writeContextHash with
    | .ok p => some (s.record { s.tables with writeProvenance := p } (.accepted msg), none)
    | .error message =>
      some (s.record s.tables (.refused msg message .writeProvenanceMismatch), none)

/-- The messages and calls that work on the tables. -/
inductive FreezeHandler where
  | onWriteRegister (msg : WriteRegister)
  | onDatabaseFreezeRequest (dbPath : String) (task : ℕ)
  | onMasterFreeze (dbPath : String)
  | onTaskComplete (task : ℕ)
  | onTaskFailed (task : ℕ) (dirtyObjects : List ObjectName)
  /-- a worker dies or exits, with its tasks -/
  | workerGone (tasks : List ℕ)
  | removeObject (object : ObjectName)

def FreezeHandler.program : FreezeHandler → List FreezeInstr
  | onWriteRegister msg => [.doWriteRegister msg]
  | onDatabaseFreezeRequest dbPath task => [.onDatabaseFreezeRequest dbPath task]
  | onMasterFreeze dbPath => [.onMasterFreeze dbPath]
  | onTaskComplete task => [.commitPendingFrozen task]
  | onTaskFailed task dirtyObjects =>
    -- `broadcast_object_removed` erases once more
    dirtyObjects.flatMap (fun object => [.provenanceErase object, .provenanceErase object]) ++
      [.rollbackPendingFrozen task]
  | workerGone tasks => tasks.map .rollbackPendingFrozen
  | removeObject object => [.provenanceErase object]

def freezeProtocol : Threaded FreezeState FreezeInstr RegisterSection FreezeOutside FreezeHandler where
  program := FreezeHandler.program
  exec := exec
  free := free
  inside := inside

/-! ### The threads follow the protocol -/

/-- The events so far follow the protocol; a thread that is going to clean a database has frozen it; a
registration that was found open is still open. -/
structure FollowsProtocol (w : World FreezeState FreezeInstr RegisterSection) : Prop where
  legal : run step {} w.shared.events = some w.shared.tables
  cleanups : w.All fun op => ∀ dbPath, op = .cleanupProvenanceForDb dbPath →
    dbPath ∈ w.shared.tables.frozenDbs
  checked : ∀ i msg, w.holder = some (i, .checkProvenance msg) →
    ¬w.shared.tables.Closed msg.object.dbPath ∧ msg.writeContextHash ≠ ""

variable {s : FreezeState} {e : FreezeOutside} {op : FreezeInstr} {c : RegisterSection}

section

variable (h : run step {} s.events = some s.tables) {s' : FreezeState}

include h

theorem legal_record (event : FreezeEvent) (hallowed : s.tables.Allowed event) {tables : FreezeTables}
    (htables : s.tables.apply event = tables) :
    run step {} (s.record tables event).events = some (s.record tables event).tables := by
  show run step {} (s.events ++ [event]) = some tables
  exact run_concat.mpr ⟨s.tables, h, step_eq_some_iff.mpr ⟨hallowed, htables⟩⟩

/-- What an instruction does is an event of the protocol, or nothing. -/
theorem exec_legal {todo : List FreezeInstr}
    (hclean : ∀ dbPath, op = .cleanupProvenanceForDb dbPath → dbPath ∈ s.tables.frozenDbs)
    (hexec : exec e s op = some (.done s' todo)) :
    run step {} s'.events = some s'.tables ∧
      (∀ dbPath ∈ s.tables.frozenDbs, dbPath ∈ s'.tables.frozenDbs) ∧
      (∀ op' ∈ todo, ∀ dbPath, op' = .cleanupProvenanceForDb dbPath → dbPath ∈ s'.tables.frozenDbs) ∧
      (op.free = true → ∀ dbPath, s'.tables.Closed dbPath ↔ s.tables.Closed dbPath) := by
  cases op with
  | doWriteRegister msg => cases hexec
  | onDatabaseFreezeRequest dbPath task =>
    simp only [exec] at hexec
    split at hexec
    · cases hexec
      exact ⟨legal_record h (.freezeRejected dbPath task) trivial rfl, fun _ => id, by simp,
        by simp [free]⟩
    · next hopen =>
      split at hexec
      · cases hexec
        refine ⟨legal_record h (.confirmed dbPath task) hopen rfl,
          fun path hpath => Finset.mem_insert_of_mem hpath, ?_, by simp [free]⟩
        simp [FreezeState.record]
      · cases hexec
        exact ⟨legal_record h (.pended dbPath task) hopen rfl, fun _ => id, by simp,
          by simp [free]⟩
  | onMasterFreeze dbPath =>
    simp only [exec] at hexec
    split at hexec
    · cases hexec
      exact ⟨h, fun _ => id, by simp, fun _ _ => Iff.rfl⟩
    rename_i hopen
    cases hexec
    refine ⟨legal_record h (.masterFroze dbPath) (fun hfrozen => hopen (.inr hfrozen)) rfl,
      fun path hpath => Finset.mem_insert_of_mem hpath, ?_, by simp [free]⟩
    simp [FreezeState.record]
  | commitPendingFrozen task =>
    cases hexec
    refine ⟨legal_record h (.committed task) trivial rfl,
      fun path hpath => Finset.mem_union_left _ hpath, ?_, by simp [free]⟩
    rintro op' hop' dbPath rfl
    obtain ⟨path, hpath, heq⟩ := mem_map.mp hop'
    cases heq
    exact Finset.mem_union_right _ (mem_toFinset.mpr (mem_filter.mp hpath).1)
  | rollbackPendingFrozen task =>
    cases hexec
    exact ⟨legal_record h (.rolledBack task) trivial rfl, fun _ => id, by simp, by simp [free]⟩
  | provenanceErase object =>
    cases hexec
    exact ⟨legal_record h (.erased object) trivial rfl, fun _ => id, by simp, fun _ _ => Iff.rfl⟩
  | cleanupProvenanceForDb dbPath =>
    cases hexec
    exact ⟨legal_record h (.cleaned dbPath) (hclean dbPath rfl) rfl, fun _ => id, by simp,
      fun _ _ => Iff.rfl⟩

theorem inside_legal {c' : Option RegisterSection} (hchecked : ∀ msg, c = .checkProvenance msg →
      ¬s.tables.Closed msg.object.dbPath ∧ msg.writeContextHash ≠ "")
    (hinside : inside e s c = some (s', c')) :
    run step {} s'.events = some s'.tables ∧ s'.tables.frozenDbs = s.tables.frozenDbs ∧
      ∀ msg, c' = some (.checkProvenance msg) →
        ¬s'.tables.Closed msg.object.dbPath ∧ msg.writeContextHash ≠ "" := by
  cases c with
  | checkFrozen msg =>
    simp only [inside] at hinside
    split at hinside
    · cases hinside
      exact ⟨legal_record h (.refused msg _ _) trivial rfl, rfl, by simp⟩
    rename_i hopen
    split at hinside
    · cases hinside
      exact ⟨legal_record h (.refused msg _ _) trivial rfl, rfl, by simp⟩
    rename_i hhash
    cases hinside
    refine ⟨h, rfl, fun msg' heq => ?_⟩
    cases heq
    exact ⟨hopen, hhash⟩
  | checkProvenance msg =>
    obtain ⟨hopen, hhash⟩ := hchecked msg rfl
    simp only [inside, splitFullName_full] at hinside
    rcases s.tables.writeProvenance.checkAndRegister_spec msg.object hhash with
      ⟨p', hok, hmatch, -⟩ | ⟨⟨message, herror⟩, -⟩
    · rw [hok] at hinside
      cases hinside
      exact ⟨legal_record h (.accepted msg) ⟨hopen, hhash, hmatch⟩
        (by simp only [apply, hok]), rfl, by simp⟩
    · rw [herror] at hinside
      cases hinside
      exact ⟨legal_record h (.refused msg _ _) trivial rfl, rfl, by simp⟩

end

/-- Only `do_write_register` holds the mutex over several steps. -/
theorem exec_enter (h : exec e s op = some (.enter c)) :
    ∃ msg, op = .doWriteRegister msg ∧ c = .checkFrozen msg := by
  cases op with
  | doWriteRegister msg =>
    cases h
    exact ⟨msg, rfl, rfl⟩
  | onDatabaseFreezeRequest dbPath task =>
    simp only [exec] at h
    split at h
    · cases h
    · split at h <;> cases h
  | onMasterFreeze dbPath =>
    simp only [exec] at h
    split at h <;> cases h
  | _ => cases h

namespace FollowsProtocol

theorem start : FollowsProtocol { shared := {} } where
  legal := rfl
  cleanups := by simp [World.All]
  checked := nofun

variable {w : World FreezeState FreezeInstr RegisterSection}

theorem step {w' : World FreezeState FreezeInstr RegisterSection}
    {a : Action FreezeOutside FreezeHandler} (h : FollowsProtocol w)
    (hstep : freezeProtocol.step w a = some w') : FollowsProtocol w' := by
  rcases Threaded.step_cases hstep with ⟨g, -, rfl⟩ | ⟨i, e, -, ⟨c, s, c', hholder, -, hinside, rfl⟩ |
    ⟨op, rest, hexecutes, ⟨s, todo, hexec, rfl⟩ | ⟨c, hexec, hholder, rfl⟩⟩⟩
  · -- a handler starts: its program holds no cleaning yet
    refine ⟨h.legal, h.cleanups.call fun op hop dbPath heq => ?_, h.checked⟩
    subst heq
    cases g <;> simp [freezeProtocol, FreezeHandler.program] at hop
  · obtain ⟨hlegal, hfrozen, hnext⟩ := inside_legal (e := e) h.legal
      (fun msg heq => h.checked i msg (by rw [hholder, heq])) hinside
    refine ⟨hlegal, ?_, fun j msg hholder' => ?_⟩
    · intro thread hthread op hop dbPath heq
      rw [hfrozen]
      exact h.cleanups thread hthread op hop dbPath heq
    · obtain ⟨c'', hc'', heq⟩ := map_eq_some_iff.mp hholder'
      cases heq
      exact hnext msg hc''
  · obtain ⟨hlegal, hmono, htodo, hfree⟩ :=
      exec_legal h.legal (h.cleanups.head hexecutes.thread) hexec
    have hcleanups : w.All fun op => ∀ dbPath, op = .cleanupProvenanceForDb dbPath →
        dbPath ∈ s.tables.frozenDbs := fun thread hthread op hop dbPath heq =>
      hmono dbPath (h.cleanups thread hthread op hop dbPath heq)
    refine ⟨hlegal, hcleanups.set hexecutes.thread htodo s w.holder, fun j msg hholder => ?_⟩
    -- a thread inside `do_write_register` keeps the others out of the two tables it has looked at
    rcases hexecutes.mutex with hop | hnone
    · rw [hfree hop]
      exact h.checked j msg hholder
    · rw [hnone] at hholder
      cases hholder
  · obtain ⟨msg, -, rfl⟩ := exec_enter hexec
    refine ⟨h.legal, ?_, fun j msg' heq => by cases heq⟩
    exact h.cleanups.set hexecutes.thread
      (fun op' (hop' : op' ∈ ([] : List FreezeInstr)) => absurd hop' not_mem_nil) w.shared _

theorem run {actions : List (Action FreezeOutside FreezeHandler)}
    (h : run freezeProtocol.step { shared := {} } actions = some w) : FollowsProtocol w :=
  run_invariant (I := FollowsProtocol) (fun _ _ _ _ hfollows hstep => hfollows.step hstep) start h

end FollowsProtocol

/-! ### The contract -/

/-- The end of a task, as the tables see it. -/
def EndOf (task : ℕ) (event : FreezeEvent) : Prop := event = .committed task ∨ event = .rolledBack task

/-- **The freeze and provenance contract**, over every interleaving of the handlers.

* A registration is accepted only while its database is neither frozen nor pending.
* Between accepted registrations of one object with different hashes the object was removed.
* A database that a task has asked to freeze waits for the end of the task.  Until then, and after a task
  that failed or lost its worker, it is frozen exactly if the master has frozen it directly meanwhile;
  after a task that completed it is frozen, for good.  At the end of the task it stops waiting.
* A database that was cleaned after its freeze has no provenance. -/
theorem freeze_contract {actions : List (Action FreezeOutside FreezeHandler)}
    {w : World FreezeState FreezeInstr RegisterSection}
    (hrun : run freezeProtocol.step { shared := {} } actions = some w) :
    (∀ pre a post t t' msg, actions = pre ++ a :: post →
      run freezeProtocol.step { shared := {} } pre = some t → freezeProtocol.step t a = some t' →
      t'.shared.events = t.shared.events ++ [.accepted msg] →
        msg.object.dbPath ∉ t.shared.tables.frozenDbs ∧
        t.shared.tables.pendingFrozenDbs.lookup msg.object.dbPath = none) ∧
    (∀ before between after first second,
      w.shared.events = before ++ .accepted first :: (between ++ .accepted second :: after) →
      first.object = second.object → first.writeContextHash ≠ second.writeContextHash →
        .erased first.object ∈ between) ∧
    (∀ before events dbPath task, w.shared.events = before ++ .pended dbPath task :: events →
      ((∀ event ∈ events, ¬EndOf task event) → w.shared.tables.pendingFrozenDbs.lookup dbPath = some task ∧
        (dbPath ∈ w.shared.tables.frozenDbs ↔ .masterFroze dbPath ∈ events)) ∧
      (∀ during, events = during ++ [.rolledBack task] → (∀ event ∈ during, ¬EndOf task event) →
        w.shared.tables.pendingFrozenDbs.lookup dbPath = none ∧
        (dbPath ∈ w.shared.tables.frozenDbs ↔ .masterFroze dbPath ∈ during)) ∧
      (∀ during after, events = during ++ .committed task :: after → (∀ event ∈ during, ¬EndOf task event) →
        (after = [] → w.shared.tables.pendingFrozenDbs.lookup dbPath = none) ∧
        dbPath ∈ w.shared.tables.frozenDbs)) ∧
    (∀ dbPath, .cleaned dbPath ∈ w.shared.events →
      lookup dbPath w.shared.tables.writeProvenance = none) := by
  have hlegal := (FollowsProtocol.run hrun).legal
  refine ⟨?_, ?_, ?_, ?_⟩
  · intro pre a post t t' msg hsplit ht hstep hevents
    have hbefore := FollowsProtocol.run ht
    have hafter := (hbefore.step hstep).legal
    rw [hevents, run_append_of_run hbefore.legal, run_cons] at hafter
    obtain ⟨tables, haccepted, -⟩ := bind_eq_some_iff.mp hafter
    obtain ⟨⟨hopen, -⟩, -⟩ := step_eq_some_iff.mp haccepted
    exact ⟨fun hfrozen => hopen (.inl hfrozen),
      not_isSome_iff_eq_none.mp fun hpending => hopen (.inr hpending)⟩
  · intro before between after first second hsplit hobject hhash
    rw [hsplit] at hlegal
    exact erased_between hlegal hobject hhash
  · intro before events dbPath task hsplit
    rw [hsplit] at hlegal
    obtain ⟨s, t, -, hpended, hrest⟩ := run_append_cons.mp hlegal
    have hnone : ∀ {during : List FreezeEvent}, (∀ event ∈ during, ¬EndOf task event) →
        .committed task ∉ during ∧ .rolledBack task ∉ during := fun h =>
      ⟨fun hmem => h _ hmem (.inl rfl), fun hmem => h _ hmem (.inr rfl)⟩
    refine ⟨fun hrunning => pending_until_end hpended (hnone hrunning) hrest, ?_, ?_⟩
    · rintro during rfl hrunning
      exact frozen_iff_of_rolledBack hpended (hnone hrunning) hrest
    · rintro during after rfl hrunning
      exact frozen_of_committed hpended (hnone hrunning) hrest
  · exact fun dbPath hmem => provenance_of_cleaned hlegal hmem

/-- A write is registered and its database then frozen, in the mode that confirms at once. -/
def registerThenFreeze : List (Action FreezeOutside FreezeHandler) :=
  [.call (.onWriteRegister ⟨⟨"/project", "result", by decide, by decide⟩, "h1"⟩),
    .step 0 {}, .step 0 {}, .step 0 {},
    .call (.onDatabaseFreezeRequest "/project" 7), .step 1 {}, .step 1 {}]

theorem freeze_contract_registerThenFreeze :
    ∃ w, run freezeProtocol.step { shared := {} } registerThenFreeze = some w ∧
      w.shared.events =
        [.accepted ⟨⟨"/project", "result", by decide, by decide⟩, "h1"⟩, .confirmed "/project" 7,
        .cleaned "/project"] ∧
      lookup "/project" w.shared.tables.writeProvenance = none := by
  obtain ⟨w, hrun, hevents⟩ : ∃ w, run freezeProtocol.step { shared := {} } registerThenFreeze = some w ∧
      w.shared.events =
        [.accepted ⟨⟨"/project", "result", by decide, by decide⟩, "h1"⟩, .confirmed "/project" 7,
        .cleaned "/project"] := ⟨_, rfl, rfl⟩
  exact ⟨w, hrun, hevents, (freeze_contract hrun).2.2.2 "/project" (by simp [hevents])⟩

/-- A task asks to freeze a database, the master freezes it directly, and the task fails. -/
def masterFreezesPending : List (Action FreezeOutside FreezeHandler) :=
  [.call (.onDatabaseFreezeRequest "/db" 7), .step 0 { streaming := false },
    .call (.onMasterFreeze "/db"), .step 1 { streaming := false },
    .call (.onTaskFailed 7 []), .step 2 { streaming := false }]

/-- The database is frozen although the task never completed. -/
theorem frozen_without_completion :
    ∃ w, run freezeProtocol.step { shared := {} } masterFreezesPending = some w ∧
      w.shared.events = [.pended "/db" 7, .masterFroze "/db", .rolledBack 7] ∧
      "/db" ∈ w.shared.tables.frozenDbs :=
  ⟨_, rfl, rfl, by decide⟩

end Fly.Agent
