import Fly.Lib.Run
import Fly.Storage.DataService

/-!
# The records of the local index

`local_idx_` holds pointers to records.  A reader that waits for a local write keeps the record itself and
is woken when the record is `COMPLETE` or `FAILED`, whether or not the index still knows it.  The database
objects of a process share the index: each of them clears the temporary objects of its path when it is
destroyed.

* `LocalRecords`, `IndexCall`, `step` — the records, and the calls that put them in and take them out;
* `none_abandoned` — as long as no call takes out a record that is `INCOMPLETE`, no reader waits for ever;
* `DbRegistry`, `RegistryOp` — the reference counts of `register_database`, and the database objects;
* `kept_on_destroy_iff` — the destruction of a database object leaves what another one reads **iff** there
  is nothing temporary.
-/

namespace Fly.Storage

open Fly.Lib

structure ObjectRecord (ε : Type) extends LocalObjectInfo ε where
  isTemp : Bool := false

/-- A database path and a short name. -/
abbrev ObjectKey := String × String

/-- `local_idx_`, and all records that were ever in it; a pointer is a position among them. -/
structure LocalRecords (ε : Type) where
  records : List (ObjectRecord ε) := []
  localIdx : ObjectKey → Option ℕ := fun _ => none

inductive IndexCall (ε : Type) where
  | onWriteStarted (k : ObjectKey)
  | onTempWriteStarted (k : ObjectKey)
  | onWriteCompleted (k : ObjectKey) (entries : List ε)
  | onTempWrite (k : ObjectKey) (diskEntry : Option ε)
  | onWriteFailed (k : ObjectKey)
  | removeLocalIndex (k : ObjectKey)
  | cleanupTempEntries (dbPath : String)
  | clearLocalIndexForDb (dbPath : String)

namespace LocalRecords

variable {ε : Type} (s : LocalRecords ε)

def record? (k : ObjectKey) : Option (ObjectRecord ε) :=
  (s.localIdx k).bind (s.records[·]?)

/-- A new record, `INCOMPLETE`, in the slot of the object. -/
def start (k : ObjectKey) (isTemp : Bool) : LocalRecords ε :=
  ⟨s.records ++ [{ isTemp := isTemp }], Function.update s.localIdx k (some s.records.length)⟩

def update (k : ObjectKey) (f : ObjectRecord ε → ObjectRecord ε) : LocalRecords ε :=
  match s.localIdx k with
  | some p => { s with records := s.records.modify p f }
  | none => s

def erase (gone : ObjectKey → Bool) : LocalRecords ε :=
  { s with localIdx := fun k => if gone k then none else s.localIdx k }

/-- The slots of the temporary objects of a database. -/
def isTempOf (dbPath : String) (k : ObjectKey) : Bool :=
  k.1 = dbPath && (s.record? k).any (·.isTemp)

def step : IndexCall ε → LocalRecords ε
  | .onWriteStarted k =>
    -- a record that is COMPLETE stays
    if (s.record? k).any (·.completionState = .complete) then s else s.start k false
  | .onTempWriteStarted k => s.start k true
  | .onWriteCompleted k entries =>
    s.update k fun r => { r with entries, completionState := .complete }
  | .onTempWrite k diskEntry =>
    s.update k fun r =>
      { r with entries := diskEntry.elim r.entries ([·]), completionState := .complete }
  | .onWriteFailed k =>
    (s.update k fun r => { r with completionState := .failed }).erase (· = k)
  | .removeLocalIndex k => s.erase (· = k)
  | .cleanupTempEntries dbPath => s.erase (s.isTempOf dbPath)
  | .clearLocalIndexForDb dbPath => s.erase (·.1 = dbPath)

/-- A record that is not in the index any more is `COMPLETE` or `FAILED`. -/
def NoneAbandoned : Prop :=
  ∀ p r, s.records[p]? = some r → (∀ k, s.localIdx k ≠ some p) → r.completionState ≠ .incomplete

/-- The slots a call takes the record out of without marking it. -/
def takesOut : IndexCall ε → ObjectKey → Bool
  | .onWriteStarted k, k' | .onTempWriteStarted k, k' | .removeLocalIndex k, k' => k' = k
  | .cleanupTempEntries dbPath, k' => s.isTempOf dbPath k'
  | .clearLocalIndexForDb dbPath, k' => k'.1 = dbPath
  | .onWriteCompleted .., _ | .onTempWrite .., _ | .onWriteFailed _, _ => false

/-- No record is taken out while it is `INCOMPLETE`. -/
def Safe (call : IndexCall ε) : Prop :=
  ∀ k r, s.takesOut call k = true → s.record? k = some r → r.completionState ≠ .incomplete

variable {s} {k : ObjectKey} {r : ObjectRecord ε}

theorem noneAbandoned_erase (h : s.NoneAbandoned) {g : ObjectKey → Bool}
    (hgone : ∀ k r, g k = true → s.record? k = some r → r.completionState ≠ .incomplete) :
    (s.erase g).NoneAbandoned := by
  intro p r hr hout
  by_cases hin : ∃ k, s.localIdx k = some p
  · obtain ⟨k, hk⟩ := hin
    have hk' := hout k
    rw [erase] at hk'
    by_cases hg : g k = true
    · exact hgone k r hg (by rw [record?, hk]; exact hr)
    · exact absurd hk (by simpa [hg] using hk')
  · exact h p r hr fun k hk => hin ⟨k, hk⟩

theorem noneAbandoned_start (h : s.NoneAbandoned)
    (hk : ∀ r, s.record? k = some r → r.completionState ≠ .incomplete) (isTemp : Bool) :
    (s.start k isTemp).NoneAbandoned := by
  intro p r hr hout
  have hp : p < s.records.length := by
    have hne : p ≠ s.records.length := by
      rintro rfl
      exact hout k (Function.update_self ..)
    have hlt := (List.getElem?_eq_some_iff.mp hr).1
    rw [start, List.length_append, List.length_singleton] at hlt
    omega
  rw [start, List.getElem?_append_left hp] at hr
  -- the slot is emptied first
  refine noneAbandoned_erase h (g := (· = k)) (fun k' r hk' => ?_) p r hr fun k' => ?_
  · rw [of_decide_eq_true hk']
    exact hk r
  · have hk' := hout k'
    by_cases heq : k' = k
    · simp [erase, heq]
    · simpa [erase, start, heq] using hk'

theorem noneAbandoned_update (h : s.NoneAbandoned) {f : ObjectRecord ε → ObjectRecord ε}
    (hf : ∀ r, (f r).completionState ≠ .incomplete) : (s.update k f).NoneAbandoned := by
  rw [update]
  split
  · next p hp =>
    intro q r hr hout
    rw [List.getElem?_modify] at hr
    obtain ⟨r', hr', rfl⟩ := Option.map_eq_some_iff.mp hr
    split
    · exact hf r'
    · exact h q r' hr' hout
  · exact h

theorem noneAbandoned_step (h : s.NoneAbandoned) {call : IndexCall ε} (hsafe : s.Safe call) :
    (s.step call).NoneAbandoned := by
  cases call with
  | onWriteStarted k =>
    rw [step]
    split
    · exact h
    · exact noneAbandoned_start h (fun r => hsafe k r (decide_eq_true rfl)) false
  | onTempWriteStarted k => exact noneAbandoned_start h (fun r => hsafe k r (decide_eq_true rfl)) true
  | onWriteCompleted | onTempWrite => exact noneAbandoned_update h fun r => by simp
  | onWriteFailed k =>
    refine noneAbandoned_erase (noneAbandoned_update h fun r => by simp) fun k' r hk' hr => ?_
    rw [of_decide_eq_true hk', record?, update] at hr
    split at hr
    · next p hp =>
      rw [hp, Option.bind_some, List.getElem?_modify] at hr
      obtain ⟨r', -, rfl⟩ := Option.map_eq_some_iff.mp hr
      simp
    · next hp =>
      rw [hp] at hr
      cases hr
  | removeLocalIndex | cleanupTempEntries | clearLocalIndexForDb => exact noneAbandoned_erase h hsafe

/-- **No waited-on write is abandoned** if every call finds the records that it takes out `COMPLETE` or
`FAILED`. -/
theorem none_abandoned (calls : List (IndexCall ε))
    (hsafe : ∀ pre call post, calls = pre ++ call :: post → (pre.foldl step {}).Safe call) :
    (calls.foldl step {}).NoneAbandoned := by
  induction calls using List.reverseRecOn with
  | nil =>
    exact nofun
  | append_singleton calls call ih =>
    rw [List.foldl_append]
    refine noneAbandoned_step (ih fun pre c post hsplit => ?_) (hsafe calls call [] rfl)
    exact hsafe pre c (post ++ [call]) (by rw [hsplit]; simp)

/-- An object that is written, and removed when it is complete. -/
theorem none_abandoned_written : ([.onWriteStarted ("/db", "a"), .onWriteCompleted ("/db", "a") [1],
      .removeLocalIndex ("/db", "a")].foldl step ({} : LocalRecords ℕ)).NoneAbandoned := by
  refine none_abandoned _ ?_
  rw [forall_split_cons_iff, forall_split_cons_iff, forall_split_cons_iff]
  refine ⟨fun k r _ hr => ?_, fun k r hk => ?_, fun k r hk hr => ?_, fun pre call post h => ?_⟩
  · cases hr
  · cases hk
  · cases of_decide_eq_true hk
    cases hr
    decide
  · exact absurd h (by simp)

/-- A record that is removed while its write is under way stays `INCOMPLETE`. -/
theorem removed_write_abandoned :
    ¬([.onWriteStarted ("/db", "a"), .removeLocalIndex ("/db", "a")].foldl step
      ({} : LocalRecords ℕ)).NoneAbandoned := by
  intro h
  refine h 0 {} rfl (fun k => ?_) rfl
  by_cases hk : k = ("/db", "a")
  · simp [hk, step, erase]
  · simp [hk, step, erase, start, record?]

end LocalRecords

open LocalRecords

/-! ### Database objects on one path -/

structure DbPaths where
  dbPath : String
  dataPath : String
  writerId : String

/-- The part of the data service that the database objects of a process share, and the objects that are
alive, by their path; one whose path was rejected has none. -/
structure DbRegistry (ε : Type) where
  dbRefs : String → ℕ := fun _ => 0
  dbPaths : String → Option DbPaths := fun _ => none
  index : LocalRecords ε := {}
  databases : List (Option String) := []

inductive RegistryOp (ε : Type) where
  | construct (paths : DbPaths)
  | destroy (db : Option String)
  | call (call : IndexCall ε)

namespace DbRegistry

variable {ε : Type} (w : DbRegistry ε)

def registerDatabase (paths : DbPaths) : DbRegistry ε :=
  { w with
    dbRefs := Function.update w.dbRefs paths.dbPath (w.dbRefs paths.dbPath + 1)
    dbPaths := Function.update w.dbPaths paths.dbPath (some paths) }

def unregisterDatabase (dbPath : String) : DbRegistry ε :=
  if dbPath = "" then w
  else if w.dbRefs dbPath ≤ 1 then
    { w with
      dbRefs := Function.update w.dbRefs dbPath 0
      dbPaths := Function.update w.dbPaths dbPath none }
  else { w with dbRefs := Function.update w.dbRefs dbPath (w.dbRefs dbPath - 1) }

def hasDatabase (dbPath : String) : Bool := (w.dbPaths dbPath).isSome

/-- The destructor, once the write-back queue is drained; `db_path_` of a rejected object is empty. -/
def destroyed (db : Option String) : DbRegistry ε :=
  { w with index := w.index.step (.cleanupTempEntries (db.getD "")) }.unregisterDatabase (db.getD "")

def step : RegistryOp ε → Option (DbRegistry ε)
  | .construct paths =>
    -- a path with ':' is rejected
    if ':' ∈ paths.dbPath.toList then some { w with databases := w.databases ++ [none] }
    else
      some { w.registerDatabase paths with databases := w.databases ++ [some paths.dbPath] }
  | .destroy db =>
    if db ∈ w.databases then some { w.destroyed db with databases := w.databases.erase db } else none
  | .call call => some { w with index := w.index.step call }

/-- `try_read_local_raw` finds the object; `onDisk` says which entries can be read from the files. -/
def Readable (onDisk : List ε → DbPaths → Bool) (w : DbRegistry ε) (k : ObjectKey) : Prop :=
  ∃ r paths, w.index.record? k = some r ∧ r.completionState = .complete ∧
    w.dbPaths k.1 = some paths ∧ paths.dbPath ≠ "" ∧ onDisk r.entries paths = true

/-- Every database object is counted, and what is counted is registered. -/
def Counted : Prop :=
  ∀ p, w.databases.count (some p) ≤ w.dbRefs p ∧ (0 < w.dbRefs p → w.hasDatabase p = true)

theorem destroyed_spec (db : Option String) (p : String) :
    (w.destroyed db).dbRefs p = (if db = some p ∧ p ≠ "" then w.dbRefs p - 1 else w.dbRefs p) ∧
    (w.destroyed db).dbPaths p =
      if db = some p ∧ p ≠ "" ∧ w.dbRefs p ≤ 1 then none else w.dbPaths p := by
  unfold destroyed unregisterDatabase
  cases db with
  | none => simp
  | some q =>
    by_cases hp : p = q
    · subst hp
      split_ifs <;> simp_all
    · split_ifs <;> simp_all [Ne.symm hp]

variable {w} {w' : DbRegistry ε}

theorem counted_step (h : w.Counted) {op : RegistryOp ε} (hstep : w.step op = some w') :
    w'.Counted := by
  intro p
  obtain ⟨hcount, hhas⟩ := h p
  cases op with
  | call call => cases hstep; exact ⟨hcount, hhas⟩
  | construct paths =>
    simp only [step] at hstep
    split at hstep
    · cases hstep
      exact ⟨by simpa using hcount, hhas⟩
    · cases hstep
      by_cases hp : p = paths.dbPath
      · subst hp
        simpa [registerDatabase, hasDatabase, List.count_append] using hcount
      · refine ⟨?_, by simpa [registerDatabase, hasDatabase, hp] using hhas⟩
        simpa [registerDatabase, hp, List.count_append, List.count_singleton, Ne.symm hp] using hcount
  | destroy db =>
    obtain ⟨-, hstep⟩ := Option.ite_none_right_eq_some.mp hstep
    cases hstep
    obtain ⟨hrefs, hpaths⟩ := w.destroyed_spec db p
    show (w.databases.erase db).count (some p) ≤ (w.destroyed db).dbRefs p ∧
      (0 < (w.destroyed db).dbRefs p → ((w.destroyed db).dbPaths p).isSome = true)
    rw [hrefs, hpaths, List.count_erase]
    by_cases hp : db = some p ∧ p ≠ ""
    · rw [if_pos hp, if_pos (beq_iff_eq.mpr hp.1)]
      refine ⟨Nat.sub_le_sub_right hcount 1, fun hpos => ?_⟩
      rw [if_neg fun h => absurd h.2.2 (by omega)]
      exact hhas (by omega)
    · rw [if_neg hp, if_neg (α := Option DbPaths) fun h => hp ⟨h.1, h.2.1⟩]
      exact ⟨(Nat.sub_le _ _).trans hcount, hhas⟩

theorem counted_run {ops : List (RegistryOp ε)} (hrun : run step {} ops = some w) : w.Counted :=
  run_invariant (fun _ _ _ _ h hstep => counted_step h hstep)
    (fun _ => ⟨Nat.zero_le _, fun h => absurd h (Nat.lt_irrefl 0)⟩) hrun

theorem hasDatabase_of_counted (h : w.Counted) {p : String} (hp : some p ∈ w.databases) :
    w.hasDatabase p = true :=
  (h p).2 ((List.count_pos_iff.mpr hp).trans_le (h p).1)

/-- **Database objects on one path**: the path of an object that is alive is registered, and when another
object is destroyed, everything that can be read stays readable iff no temporary object of its path can. -/
theorem kept_on_destroy_iff (onDisk : List ε → DbPaths → Bool) (ops : List (RegistryOp ε))
    (hrun : run step {} ops = some w) :
    (∀ p, some p ∈ w.databases → w.hasDatabase p = true) ∧
      ∀ db p, w.step (.destroy db) = some w' → some p ∈ w'.databases →
        ((∀ name, Readable onDisk w (p, name) → Readable onDisk w' (p, name)) ↔
          ∀ name, w.index.isTempOf (db.getD "") (p, name) = true → ¬Readable onDisk w (p, name)) := by
  have hcounted := counted_run hrun
  refine ⟨fun p => hasDatabase_of_counted hcounted, fun db p hstep hp => ?_⟩
  have hhas := hasDatabase_of_counted (counted_step hcounted hstep) hp
  obtain ⟨-, hstep⟩ := Option.ite_none_right_eq_some.mp hstep
  cases hstep
  have hpaths : (w.destroyed db).dbPaths p = w.dbPaths p := by
    have hspec := (w.destroyed_spec db p).2
    split at hspec
    · rw [hasDatabase, hspec] at hhas
      cases hhas
    · exact hspec
  have hindex : (w.destroyed db).index = w.index.erase (w.index.isTempOf (db.getD "")) := by
    unfold destroyed unregisterDatabase
    split_ifs <;> rfl
  refine forall_congr' fun name => ?_
  by_cases hgone : w.index.isTempOf (db.getD "") (p, name) = true
  · have hnone : (w.index.erase (w.index.isTempOf (db.getD ""))).record? (p, name) = none := by
      simp [record?, erase, hgone]
    rw [forall_prop_of_true hgone]
    refine imp_congr_right fun _ => iff_of_false ?_ not_false
    rintro ⟨r, paths, hr, -⟩
    rw [hindex, hnone] at hr
    cases hr
  · refine iff_of_true ?_ fun h => absurd h hgone
    rintro ⟨r, paths, hr, hcomplete, hentry, hrest⟩
    refine ⟨r, paths, ?_, hcomplete, hpaths.trans hentry, hrest⟩
    rw [hindex]
    simpa [record?, erase, hgone] using hr

/-- Two objects on the path `/db`, and a temporary object written through one of them. -/
def tempWritten : List (RegistryOp ℕ) :=
  [.construct ⟨"/db", "/db", "w1"⟩, .construct ⟨"/db", "/db", "w2"⟩,
    .call (.onTempWriteStarted ("/db", "t")), .call (.onTempWrite ("/db", "t") (some 1))]

/-- The other object is destroyed, and the temporary object is gone. -/
theorem temp_lost_on_destroy : ∃ w w' : DbRegistry ℕ, run step {} tempWritten = some w ∧
    w.step (.destroy (some "/db")) = some w' ∧ some "/db" ∈ w'.databases ∧
      Readable (fun _ _ => true) w ("/db", "t") ∧ ¬Readable (fun _ _ => true) w' ("/db", "t") := by
  refine ⟨_, _, rfl, rfl, by decide, ⟨_, _, rfl, rfl, rfl, by decide, rfl⟩, ?_⟩
  rintro ⟨r, paths, hr, -⟩
  cases hr

/-- Two objects on the path again, and an object written that is not temporary. -/
def objectWritten : List (RegistryOp ℕ) := tempWritten.take 2 ++
  [.call (.onWriteStarted ("/db", "o")), .call (.onWriteCompleted ("/db", "o") [1])]

theorem kept_on_destroy_iff_written : ∃ w w' : DbRegistry ℕ, run step {} objectWritten = some w ∧
    w.step (.destroy (some "/db")) = some w' ∧ some "/db" ∈ w'.databases ∧
      Readable (fun _ _ => true) w ("/db", "o") ∧ Readable (fun _ _ => true) w' ("/db", "o") := by
  refine ⟨_, _, rfl, rfl, by decide, ⟨_, _, rfl, rfl, rfl, by decide, rfl⟩, ?_⟩
  have hkept := (kept_on_destroy_iff (fun _ _ => true) objectWritten rfl).2 (some "/db") "/db" rfl (by decide)
  refine hkept.mpr (fun name htemp => ?_) "o" ⟨_, _, rfl, rfl, rfl, by decide, rfl⟩
  -- the only record is that of the object
  obtain ⟨r, hr, htemp⟩ := (Option.any_eq_true _ _).mp (Bool.and_eq_true_iff.mp htemp).2
  obtain ⟨ptr, -, hr⟩ := Option.bind_eq_some_iff.mp hr
  have hmem : r ∈ [_] := List.mem_of_getElem? hr
  rw [List.mem_singleton.mp hmem] at htemp
  cases htemp

end DbRegistry

end Fly.Storage
