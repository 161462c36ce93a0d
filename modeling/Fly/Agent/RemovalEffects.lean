import Mathlib.Data.List.TakeWhile
import Fly.Agent.Removal

/-!
# What the steps of a removal change

One lemma for each operation on the tables of the master and on a process, with respect to one object.

* `ObjectTables.Unknown` under registrations, removals and rebuilding;
* `Process.HasLocal`, `Process.Indexed`, `Process.Queued` — where a process may have an object;
* `Process.Keeps` — an operation brings nothing new of an object;
* `startWrite_spec`, `writeBack_spec`, `indexed_onRemoveCommand`, `hasLocal_restore` — the operations that
  do, or that clear it;
* `checkLocal_of_no_copy` — when the master is asked.
-/

open Fly.Lib

namespace Fly.Storage

theorem ObjectName.eq_of_key {o o' : ObjectName} (h : splitFullName o.full = splitFullName o'.full) :
    o = o' := by
  cases o
  cases o'
  simp_all

end Fly.Storage

namespace Fly.Agent

open Fly.Storage

/-! ### The tables of the master -/

theorem Provenance.lookup_checkAndRegister_of_ne {p p' : Provenance} {object other : ObjectName}
    {hash : String} (h : p.checkAndRegister object.dbPath object.shortName hash = .ok p')
    (hne : other ≠ object) : p'.lookup other = p.lookup other := by
  unfold Provenance.checkAndRegister at h
  split at h
  · cases h
  dsimp only at h
  split at h
  · cases h
    rw [Provenance.lookup_eq, Provenance.lookup_eq, Table.lookup_insert_eq]
    by_cases hdb : other.dbPath = object.dbPath
    · have hname : other.shortName ≠ object.shortName := fun hname =>
        hne (ObjectName.eq_of_key (by rw [splitFullName_full, splitFullName_full, hdb, hname]))
      rw [if_pos hdb, Option.getD_some, Table.lookup_insert_eq, if_neg hname, hdb]
    · rw [if_neg hdb]
  · split at h
    · cases h
      rfl
    · cases h

namespace ObjectTables

variable {object : ObjectName} {t : ObjectTables}

theorem location_updateRemoteIdx_of_ne (t : ObjectTables) {name : String} (worker : ℕ) (size : ℤ)
    (hne : (object.dbPath, object.shortName) ≠ splitFullName name) :
    (t.updateRemoteIdx name worker size).location object = t.location object := by
  unfold updateRemoteIdx location
  rw [Table.lookup_upsert]
  by_cases hdb : object.dbPath = (splitFullName name).1
  · have hshort : object.shortName ≠ (splitFullName name).2 := fun hshort =>
      hne (Prod.ext hdb hshort)
    rw [if_pos hdb, Option.bind_some, Table.lookup_upsert, if_neg hshort, hdb]
    cases AList.lookup (splitFullName name).1 t.remoteIdx <;> rfl
  · rw [if_neg hdb]

theorem Unknown.doWriteRegister {t' : ObjectTables} (h : t.Unknown object)
    {frozen : Bool} {worker : ℕ} {w : ObjectWrite} (hne : object ≠ w.object)
    (hregister : t.doWriteRegister frozen worker w = some t') : t'.Unknown object := by
  unfold ObjectTables.doWriteRegister at hregister
  rw [splitFullName_full] at hregister
  split at hregister
  · cases hregister
  dsimp only at hregister
  split at hregister
  · cases hregister
  rename_i provenance hok
  have hprovenance : provenance.lookup object = none :=
    (Provenance.lookup_checkAndRegister_of_ne hok hne).trans h.1
  rw [Option.some.injEq] at hregister
  subst hregister
  split
  · exact ⟨hprovenance, h.2⟩
  refine ⟨hprovenance, ?_⟩
  rw [location_updateRemoteIdx_of_ne]
  · exact h.2
  · intro hkey
    rw [← splitFullName_full] at hkey
    exact hne (ObjectName.eq_of_key hkey)

theorem unknown_onMasterRemove (t : ObjectTables) (object : ObjectName) :
    (t.onMasterRemove object).Unknown object := by
  constructor
  · show (t.writeProvenance.erase object.dbPath object.shortName).lookup object = none
    rw [Provenance.lookup_erase, if_pos ⟨rfl, rfl⟩]
  · show (t.removeRemoteIndex object.full).location object = none
    rw [location_removeRemoteIndex, splitFullName_full, if_pos rfl]

theorem Unknown.rebuild (h : t.Unknown object) {dbPath : String}
    (worker : ℕ) {names : List String} (hplain : ∀ name ∈ names, ':' ∉ name.toList)
    (hnames : object.dbPath = dbPath → object.shortName ∉ names) :
    (t.rebuild dbPath worker names).Unknown object := by
  induction names generalizing t with
  | nil => exact h
  | cons name names ih =>
    refine ih (t := t.updateRemoteIdx (dbPath ++ ":" ++ name) worker 0) ⟨h.1, ?_⟩
      (fun a ha => hplain a (List.mem_cons_of_mem _ ha))
      fun hdb hmem => hnames hdb (List.mem_cons_of_mem _ hmem)
    rw [location_updateRemoteIdx_of_ne]
    · exact h.2
    · rw [splitFullName_append dbPath (hplain name List.mem_cons_self)]
      intro hkey
      obtain ⟨hdb, hshort⟩ := Prod.mk.injEq .. ▸ hkey
      exact hnames hdb (hshort ▸ List.mem_cons_self)

end ObjectTables

/-! ### What a process has of an object -/

namespace Process

variable (p : Process) (o : ObjectName)

def HasLocal : Prop := (p.localIdx.lookup (splitFullName o.full)).isSome

instance : Decidable (p.HasLocal o) :=
  inferInstanceAs (Decidable (_ = true))

def Indexed : Prop := (p.databases o.dbPath).Indexed o.shortName

instance : Decidable (p.Indexed o) :=
  inferInstanceAs (Decidable (Writers.Indexed ..))

def Queued : Prop := ∃ w ∈ p.writeBackQueue, w.object = o

instance : Decidable (p.Queued o) :=
  inferInstanceAs (Decidable (∃ w ∈ _, _))

def Tracked : Prop :=
  ∀ dbPath, (p.databases dbPath).writer.Tracked ∧ (p.databases dbPath).tempWriter.Tracked

/-- Nothing new of the object. -/
structure Keeps (p p' : Process) (o : ObjectName) : Prop where
  hasLocal : p'.HasLocal o → p.HasLocal o
  indexed : p'.Indexed o → p.Indexed o
  queued : p'.Queued o → p.Queued o

theorem Keeps.refl : p.Keeps p o := ⟨id, id, id⟩

variable {p o} {p' : Process} {w : ObjectWrite} {writers : Writers} {dbPath : String}

theorem Keeps.trans {p'' : Process} (h : p.Keeps p' o) (h' : p'.Keeps p'' o) : p.Keeps p'' o :=
  ⟨fun x => h.hasLocal (h'.hasLocal x), fun x => h.indexed (h'.indexed x), fun x => h.queued (h'.queued x)⟩

theorem databases_setWriters (p : Process) (dbPath : String) (writers : Writers) (name : String) :
    (p.setWriters dbPath writers).databases name =
      if name = dbPath then writers else p.databases name :=
  Function.update_apply ..

theorem Tracked.setWriters (h : p.Tracked) (dbPath : String)
    (hwriter : writers.writer.Tracked) (htemp : writers.tempWriter.Tracked) :
    (p.setWriters dbPath writers).Tracked := by
  intro name
  rw [databases_setWriters]
  split
  · exact ⟨hwriter, htemp⟩
  · exact h name

/-- A database that is replaced by one with no new object, but perhaps under `F`. -/
theorem indexed_setWriters {F : Prop}
    (h : o.dbPath = dbPath → writers.Indexed o.shortName → (p.databases dbPath).Indexed o.shortName ∨ F) :
    (p.setWriters dbPath writers).Indexed o → p.Indexed o ∨ F := by
  unfold Indexed
  rw [databases_setWriters]
  intro hindexed
  split at hindexed
  · next hdb =>
    rw [hdb]
    exact h hdb hindexed
  · exact .inl hindexed

/-- The last part of a write knows no new object. -/
theorem keeps_completeWrite (p : Process) (object o : ObjectName) : p.Keeps (p.completeWrite object) o := by
  refine ⟨fun h => ?_, id, id⟩
  unfold completeWrite HasLocal LocalIdx.onObjectFlushed at h
  rw [Table.isSome_lookup_modify] at h
  split at h
  · rwa [LocalIdx.onWriteCompleted, Table.isSome_lookup_modify] at h
  · exact h

theorem keeps_removeLocalIndex (p : Process) (object o : ObjectName) :
    p.Keeps (p.removeLocalIndex object) o := by
  refine ⟨fun h => ?_, id, id⟩
  have herased : (AList.lookup (splitFullName o.full)
    (p.localIdx.erase (splitFullName object.full))).isSome = true := h
  rw [Table.lookup_erase_eq] at herased
  split at herased
  · cases herased
  · exact herased

theorem not_hasLocal_removeLocalIndex (p : Process) (o : ObjectName) :
    ¬(p.removeLocalIndex o).HasLocal o := by
  unfold HasLocal removeLocalIndex LocalIdx.removeLocalIndex
  rw [Table.lookup_erase_eq, if_pos rfl]
  exact Bool.false_ne_true

theorem keeps_onRefused (p : Process) (w : ObjectWrite) (o : ObjectName) : p.Keeps (p.onRefused w) o := by
  unfold onRefused
  split
  · exact Keeps.refl p o
  · exact p.keeps_removeLocalIndex w.object o

theorem keeps_onRegistered (p : Process) (h : w.route = .queued → w.object ≠ o) :
    p.Keeps (p.onRegistered w) o := by
  unfold onRegistered
  split
  · exact Keeps.refl p o
  · exact Keeps.refl p o
  · next hroute =>
    refine ⟨id, id, ?_⟩
    rintro ⟨v, hv, rfl⟩
    rcases List.mem_append.mp hv with hv | hv
    · exact ⟨v, hv, rfl⟩
    · rw [List.mem_singleton] at hv
      exact absurd (by rw [hv]) (h hroute)
  · exact p.keeps_completeWrite w.object o

theorem tracked_onRegistered (h : p.Tracked) (w : ObjectWrite) : (p.onRegistered w).Tracked := by
  unfold onRegistered
  split
  · exact h
  · exact h
  · exact h
  · exact h

theorem tracked_onRefused (h : p.Tracked) (w : ObjectWrite) : (p.onRefused w).Tracked := by
  unfold onRefused
  split
  · exact h
  · exact h

/-! ### Writes -/

variable {removes : List String} {adds : List (String × List IndexEntry)} {inTask : Bool}
  {d d' : Database} {name : String} {files : Writers}

/-- The entry that a write adds to an index. -/
theorem addAndFlush_spec (h : (if inTask then d.openSegment else d).addAndFlush w.entry adds removes =
      some d') :
    (∀ name, d'.Indexed name → d.Indexed name ∨ name = w.object.shortName) ∧ (d.Tracked → d'.Tracked) := by
  have hopened : ∀ name, (if inTask then d.openSegment else d).Indexed name ↔ d.Indexed name := by
    intro name
    split
    · exact d.indexed_openSegment name
    · exact Iff.rfl
  constructor
  · intro name hindexed
    rcases (Database.indexed_addAndFlush h name).mp hindexed with hname | hbefore
    · exact .inr hname
    · exact .inl ((hopened name).mp hbefore)
  · intro htracked
    refine Database.Tracked.addAndFlush ?_ w.object.colon_notMem h
    split
    · exact htracked.openSegment
    · exact htracked

theorem hasLocal_onWriteStarted {object : ObjectName} (h : (AList.lookup (splitFullName o.full)
      (p.localIdx.onWriteStarted (splitFullName object.full))).isSome = true) :
    p.HasLocal o ∨ o = object := by
  by_cases hkey : splitFullName o.full = splitFullName object.full
  · exact .inr (ObjectName.eq_of_key hkey)
  refine .inl ?_
  unfold LocalIdx.onWriteStarted at h
  split at h
  · split at h
    · exact h
    · rwa [Table.lookup_insert_eq, if_neg hkey] at h
  · rwa [Table.lookup_insert_eq, if_neg hkey] at h

/-- A write is the only news: in the local index, and in an index if it is a stream. -/
theorem startWrite_spec (h : p.startWrite w inTask adds removes = some p') :
    p'.writeBackQueue = p.writeBackQueue ∧
    (∀ o, p'.HasLocal o → p.HasLocal o ∨ o = w.object ∧ w.route ≠ .permission) ∧
    (∀ o, p'.Indexed o → p.Indexed o ∨ o = w.object ∧ (w.route = .streamed ∨ w.route = .temporary)) ∧
    (p.Tracked → p'.Tracked) := by
  have hobject : ∀ o : ObjectName, o.dbPath = w.object.dbPath → o.shortName = w.object.shortName →
      o = w.object := fun o hdb hshort =>
    ObjectName.eq_of_key (by rw [splitFullName_full, splitFullName_full, hdb, hshort])
  unfold startWrite at h
  split at h
  · cases h
    exact ⟨rfl, fun _ => .inl, fun _ => .inl, id⟩
  · next hroute =>
    cases h
    refine ⟨rfl, fun o ho => ?_, fun _ => .inl, id⟩
    exact (hasLocal_onWriteStarted ho).imp_right fun heq => ⟨heq, by rw [hroute]; decide⟩
  · next hroute =>
    split at h
    · obtain ⟨writer, hflush, rfl⟩ := Option.map_eq_some_iff.mp h
      obtain ⟨hindexed, htracked⟩ := addAndFlush_spec hflush
      refine ⟨rfl, fun o ho => ?_, fun o => ?_, fun hbefore => ?_⟩
      · exact (hasLocal_onWriteStarted ho).imp_right fun heq => ⟨heq, by rw [hroute]; decide⟩
      · refine indexed_setWriters (p := p) fun hdb hnow => ?_
        rcases hnow with hwriter | htemp
        · rcases hindexed _ hwriter with hold | hnew
          · exact .inl (.inl hold)
          · exact .inr ⟨hobject o hdb hnew, .inl hroute⟩
        · exact .inl (.inr htemp)
      · exact hbefore.setWriters _ (htracked (hbefore _).1) (hbefore _).2
    · cases h
  · next hroute =>
    obtain ⟨tempWriter, hflush, rfl⟩ := Option.map_eq_some_iff.mp h
    obtain ⟨hindexed, htracked⟩ := addAndFlush_spec hflush
    refine ⟨rfl, fun o ho => ?_, fun o => ?_, fun hbefore => ?_⟩
    · have hlookup : (AList.lookup (splitFullName o.full) ((p.localIdx.onTempWriteStarted
          (splitFullName w.object.full)).onTempWrite (splitFullName w.object.full)
            (tempWriter.index.findEntry w.object.shortName))).isSome = true := ho
      by_cases hkey : splitFullName o.full = splitFullName w.object.full
      · exact .inr ⟨ObjectName.eq_of_key hkey, by rw [hroute]; decide⟩
      · rw [LocalIdx.onTempWrite, Table.lookup_modify, if_neg hkey, LocalIdx.onTempWriteStarted,
          Table.lookup_insert_eq, if_neg hkey] at hlookup
        exact .inl hlookup
    · refine indexed_setWriters (p := p) fun hdb hnow => ?_
      rcases hnow with hwriter | htemp
      · exact .inl (.inl hwriter)
      · rcases hindexed _ htemp with hold | hnew
        · exact .inl (.inr hold)
        · exact .inr ⟨hobject o hdb hnew, .inr hroute⟩
    · exact hbefore.setWriters _ (hbefore _).1 (htracked (hbefore _).2)

/-- The entries of an object that was not complete are gone when a write of it starts. -/
theorem lookup_onWriteStarted (h : p.localIdx.hasLocalObject (splitFullName o.full) = false) :
    AList.lookup (splitFullName o.full) (p.localIdx.onWriteStarted (splitFullName o.full)) = some {} := by
  unfold LocalIdx.hasLocalObject at h
  unfold LocalIdx.onWriteStarted
  split
  · next info hinfo =>
    rw [hinfo] at h
    rw [if_neg (by simpa using h), AList.lookup_insert]
  · exact AList.lookup_insert ..

/-- The first entry of an object that was not in the index. -/
theorem findEntry_addAndFlush {entry : IndexEntry}
    (h : d.addAndFlush entry adds removes = some d') (hnew : ¬d.Indexed entry.objectName) :
    d'.index.findEntry entry.objectName = some entry := by
  obtain ⟨index, hsave, rfl⟩ := Option.map_eq_some_iff.mp h
  show (AList.lookup entry.objectName index.entries).bind List.head? = some entry
  rw [LocalIndex.entries_of_save hsave]
  show (AList.lookup entry.objectName
    (Table.upsert d.index.entries entry.objectName [] (· ++ [entry]))).bind List.head? = some entry
  rw [Table.lookup_upsert, if_pos rfl]
  rw [Database.Indexed, Option.not_isSome_iff_eq_none] at hnew
  rw [hnew]
  rfl

/-- Without a copy of its own, a process leaves the decision to the master. -/
theorem checkLocal_of_no_copy (h : p.startWrite w inTask adds removes = some p')
    (hlocal : p.localIdx.hasLocalObject (splitFullName w.object.full) = false)
    (hindex : ¬p.Indexed w.object) : p'.checkLocal w = .ask := by
  have hfresh : AList.lookup (splitFullName w.object.full) p'.localIdx = some {} →
      p'.checkLocal w = .ask := by
    intro hlookup
    unfold checkLocal
    rw [hlookup]
    simp
  unfold startWrite at h
  split at h
  · next hroute =>
    exact if_pos hroute
  · cases h
    exact hfresh (lookup_onWriteStarted hlocal)
  · split at h
    · obtain ⟨writer, -, rfl⟩ := Option.map_eq_some_iff.mp h
      exact hfresh (lookup_onWriteStarted hlocal)
    · cases h
  · next hroute =>
    obtain ⟨tempWriter, hflush, rfl⟩ := Option.map_eq_some_iff.mp h
    have hnew : ¬(if inTask then (p.databases w.object.dbPath).tempWriter.openSegment
        else (p.databases w.object.dbPath).tempWriter).Indexed w.entry.objectName := by
      intro htemp
      refine hindex (.inr ?_)
      split at htemp
      · exact (Database.indexed_openSegment _ _).mp htemp
      · exact htemp
    have hentry : tempWriter.index.findEntry w.object.shortName = some w.entry :=
      findEntry_addAndFlush hflush hnew
    have hempty : w.entry.writeContextHash = "" := by
      show (if w.route = .queued then w.hash else "") = ""
      rw [hroute]
      rfl
    unfold checkLocal
    rw [hentry, LocalIdx.onTempWrite, Table.lookup_modify, if_pos rfl, LocalIdx.onTempWriteStarted,
      AList.lookup_insert]
    have hhash : ¬"" = w.hash := fun heq => w.hash_ne heq.symm
    simp [hroute, hempty, hhash]

theorem writeBack_spec (h : p.writeBack inTask adds removes = some p') :
    (∀ o, p'.HasLocal o → p.HasLocal o) ∧ (∀ o, p'.Indexed o → p.Indexed o ∨ p.Queued o) ∧
    (∀ o, p'.Queued o → p.Queued o) ∧ (p.Tracked → p'.Tracked) := by
  unfold writeBack at h
  split at h
  · cases h
  rename_i w rest hqueue
  obtain ⟨writer, hflush, rfl⟩ := Option.map_eq_some_iff.mp h
  obtain ⟨hindexed, htracked⟩ := addAndFlush_spec hflush
  have hkeeps := fun o => keeps_completeWrite ({ p.setWriters w.object.dbPath
    { p.databases w.object.dbPath with writer } with writeBackQueue := rest }) w.object o
  refine ⟨fun o ho => (hkeeps o).hasLocal ho, fun o ho => ?_, fun o ho => ?_, fun hbefore => ?_⟩
  · refine indexed_setWriters (p := p) (fun hdb hnow => ?_) ((hkeeps o).indexed ho)
    rcases hnow with hwriter | htemp
    · rcases hindexed _ hwriter with hold | hnew
      · exact .inl (.inl hold)
      · refine .inr ⟨w, by rw [hqueue]; exact List.mem_cons_self, ?_⟩
        exact ObjectName.eq_of_key (by rw [splitFullName_full, splitFullName_full, hdb, hnew])
    · exact .inl (.inr htemp)
  · obtain ⟨v, hv, heq⟩ := (hkeeps o).queued ho
    exact ⟨v, by rw [hqueue]; exact List.mem_cons_of_mem _ hv, heq⟩
  · exact hbefore.setWriters _ (htracked (hbefore _).1) (hbefore _).2

/-! ### Removals -/

theorem keeps_removeObject (p : Process) (object o : ObjectName) : p.Keeps (p.removeObject object) o := by
  refine ⟨id, fun h => ?_, id⟩
  refine Or.resolve_right (indexed_setWriters (F := False) (fun _ hnow => .inl ?_) h) id
  unfold Writers.removeObject at hnow
  split at hnow
  · exact hnow.imp_right fun htemp => ((Database.indexed_removeEntry ..).mp htemp).2
  · exact hnow.imp_left fun hwriter => ((Database.indexed_removeEntry ..).mp hwriter).2

theorem tracked_removeObject (h : p.Tracked) (object : ObjectName) : (p.removeObject object).Tracked := by
  unfold removeObject Writers.removeObject
  split
  · exact h.setWriters _ (h _).1 ((h _).2.removeEntry _)
  · exact h.setWriters _ ((h _).1.removeEntry _) (h _).2

theorem indexed_onRemoveCommand (p : Process) (object o : ObjectName)
    (h : (p.onRemoveCommand object).Indexed o) :
    p.Indexed o ∧ (o = object → (p.databases o.dbPath).tempWriter.Indexed o.shortName) := by
  unfold Indexed onRemoveCommand at h
  rw [databases_setWriters] at h
  split at h
  · next hdb =>
    unfold Indexed
    rw [hdb]
    rcases h with hwriter | htemp
    · obtain ⟨hne, hold⟩ := (Database.indexed_removeEntry ..).mp hwriter
      exact ⟨.inl hold, fun heq => absurd (by rw [heq]) hne⟩
    · exact ⟨.inr htemp, fun _ => htemp⟩
  · next hdb => exact ⟨h, fun heq => absurd (by rw [heq]) hdb⟩

theorem tracked_receive (h : p.Tracked) (answer : MasterAnswer) : (p.receive answer).Tracked := by
  cases answer with
  | registered w => exact tracked_onRegistered h w
  | refused w => exact tracked_onRefused h w
  | removeAck object notFound => exact h
  | removeCommand object => exact Tracked.setWriters h _ ((h _).1.removeEntry _) (h _).2

theorem keeps_markWriteEnd (p : Process) (dbPath : String) (o : ObjectName) :
    p.Keeps (p.markWriteEnd dbPath) o := by
  refine ⟨id, fun h => ?_, id⟩
  have hset : (p.setWriters dbPath (p.databases dbPath).markWriteEnd).Indexed o := h
  refine Or.resolve_right (indexed_setWriters (F := False) (fun _ hnow => .inl ?_) hset) id
  exact hnow

/-! ### Loading index files -/

/-- The objects that a load of the two index files gives. -/
def loadedNames (files : Writers) : List String :=
  (Table.pairs files.writer.replay.entries).map Prod.fst ++
    (Table.pairs files.tempWriter.replay.entries).map Prod.fst

theorem isSome_lookup_foldl_upsert {β : Type} {idx : LocalIdx (String × String) IndexEntry}
    {xs : List β} {key : β → String × String}
    {f : β → LocalObjectInfo IndexEntry → LocalObjectInfo IndexEntry} {k : String × String}
    (h : ((xs.foldl (fun idx x => Table.upsert idx (key x) {} (f x)) idx).lookup k).isSome) :
    (idx.lookup k).isSome ∨ ∃ x ∈ xs, key x = k := by
  induction xs generalizing idx with
  | nil => exact .inl h
  | cons x xs ih =>
    rcases ih h with hbefore | ⟨y, hy, rfl⟩
    · rw [Table.lookup_upsert] at hbefore
      split at hbefore
      · next hkey => exact .inr ⟨x, List.mem_cons_self, hkey.symm⟩
      · exact .inl hbefore
    · exact .inr ⟨y, List.mem_cons_of_mem _ hy, rfl⟩

theorem restoredName_of_plain (h : ':' ∉ name.toList) : restoredName name = name := by
  have hdrop : name.toList.reverse.dropWhile (· ≠ ':') = [] := by
    rw [List.dropWhile_eq_nil_iff]
    intro a ha
    refine decide_eq_true fun heq => h ?_
    rw [← heq]
    exact List.mem_reverse.mp ha
  have hsplit : splitFullName name = ("", "") := by
    rw [splitFullName]
    simp only [hdrop]
  rw [restoredName, hsplit, if_pos rfl]

theorem hasLocal_restore
    (hplain : ∀ name ∈ loadedNames files, ':' ∉ name.toList) (h : (p.restore dbPath files).HasLocal o) :
    p.HasLocal o ∨ o.dbPath = dbPath ∧ o.shortName ∈ loadedNames files := by
  have hobject : ∀ name, (dbPath, name) = splitFullName o.full → name ∈ loadedNames files →
      o.dbPath = dbPath ∧ o.shortName ∈ loadedNames files := by
    intro name hkey hmem
    rw [splitFullName_full, Prod.mk.injEq] at hkey
    exact ⟨hkey.1.symm, hkey.2 ▸ hmem⟩
  unfold HasLocal restore at h
  have htemp : ∀ (objects : List (String × List IndexEntry)) (idx : LocalIdx (String × String) IndexEntry),
      ((objects.foldl (fun idx object => object.2.foldl
        (fun idx entry => Table.upsert idx (dbPath, object.1) {} (restoreTempEntry · entry)) idx)
          idx).lookup (splitFullName o.full)).isSome →
      (idx.lookup (splitFullName o.full)).isSome ∨ ∃ x ∈ objects, (dbPath, x.1) = splitFullName o.full := by
    intro objects
    induction objects with
    | nil => exact fun idx h => .inl h
    | cons object objects ih =>
      intro idx h
      rcases ih _ h with hbefore | ⟨x, hx, hkey⟩
      · rcases isSome_lookup_foldl_upsert hbefore with hbefore | ⟨-, -, hkey⟩
        · exact .inl hbefore
        · exact .inr ⟨object, List.mem_cons_self, hkey⟩
      · exact .inr ⟨x, List.mem_cons_of_mem _ hx, hkey⟩
  rcases htemp _ _ h with hregular | ⟨x, hx, hkey⟩
  · rcases isSome_lookup_foldl_upsert hregular with hbefore | ⟨x, hx, hkey⟩
    · exact .inl hbefore
    · have hmem : x.1 ∈ loadedNames files := List.mem_append_left _ (List.mem_map_of_mem hx)
      rw [restoredName_of_plain (hplain _ hmem)] at hkey
      exact .inr (hobject _ hkey hmem)
  · exact .inr (hobject _ hkey (List.mem_append_right _ (List.mem_map_of_mem hx)))

/-- Files without unsaved removals give only what is in memory. -/
theorem indexed_of_mem_loadedNames
    (htracked : files.writer.Tracked ∧ files.tempWriter.Tracked) (hsaved : files.Saved)
    (h : name ∈ loadedNames files) : files.Indexed name ∧ ':' ∉ name.toList := by
  have hfile : ∀ d : Database, d.Tracked → d.Saved →
      name ∈ (Table.pairs d.replay.entries).map Prod.fst → d.Indexed name := by
    intro d htracked hsaved hmem
    by_contra hnot
    obtain ⟨⟨a, entries⟩, hpair, rfl⟩ := List.mem_map.mp hmem
    have hlookup := Table.mem_pairs.mp hpair
    rcases htracked.file a (.inl (by rw [hlookup]; rfl)) with hindexed | hpending
    · exact hnot hindexed
    · rw [hsaved] at hpending
      exact absurd hpending (Finset.notMem_empty a)
  rcases List.mem_append.mp h with hregular | htemp
  · have hindexed := hfile _ htracked.1 hsaved.1 hregular
    exact ⟨.inl hindexed, htracked.1.plain name hindexed⟩
  · have hindexed := hfile _ htracked.2 hsaved.2 htemp
    exact ⟨.inr hindexed, htracked.2.plain name hindexed⟩

end Process

end Fly.Agent
