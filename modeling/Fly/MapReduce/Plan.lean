import Fly.MapReduce.Fold

/-!
# The plan of a MapReduce job

`Job.entries` lists the objects a job writes, with their values, and `Job.exists_planned` says that the tasks
of the job are a plan for them.  `computes_fold` follows from the rules of `Fly.Lib.Dataflow`.
-/

namespace Fly.MapReduce

open Fly.Lib Fly.Lib.Dataflow List

variable {V : Type}

namespace Job

variable (job : Job V) (initial : Name → Option V)

def parts : List V :=
  match job.source with
  | .partitioner fn data => fn data
  | .prePartitioned names => names.filterMap initial

def processed : List V := (job.parts initial).map job.process

def finish (merged : V) : V :=
  match job.finalize with
  | some finalize => finalize merged
  | none => merged

/-- The object the job is to leave: the merge of the processed partitions in their order, finalized. -/
def expected : Option V := (fold1 job.merge (job.processed initial)).map job.finish

/-- What a job finds when it is run: at least one partition, its input objects, no object of its output
name, and an id that no name in the database knows. -/
structure Startable : Prop where
  nonempty : 0 < job.numPartitions
  present : ∀ names, job.source = .prePartitioned names → ∀ k ∈ names, (initial k).isSome
  output : initial job.outputName = none
  fresh : ∀ k, (initial k).isSome → ¬ mark job.jobId <+: k
  output_fresh : ¬ mark job.jobId <+: job.outputName

/-! ### The objects a job writes -/

section Entries

-- `m` is the merge of everything; `d` stands for the merge of no values, which does not occur
variable (d m : V)

def partEntries : List (Name × V) :=
  match job.source with
  | .partitioner fn data => (partKeys job.jobId (fn data).length).zip (fn data)
  | .prePartitioned _ => []

def procEntries : List (Name × V) := job.processedKeys.zip (job.processed initial)

def mergeEntries : List (Name × V) :=
  match job.mergeType with
  | .summary =>
    stageEntries job.jobId job.merge d (min job.numPartitions 8) job.numPartitions 0 (job.processed initial)
  | .full => [(mergedKey job.jobId, m)]

def mergedValue : List V :=
  match job.mergeType with
  | .summary => summaryValues job.merge d (min job.numPartitions 8) job.numPartitions (job.processed initial)
  | .full => (fold1 job.merge (job.processed initial)).toList

def entries : List (Name × V) :=
  job.partEntries ++
    (job.procEntries initial ++ (job.mergeEntries initial d m ++ [(job.outputName, job.finish m)]))

end Entries

end Job

/-! ### Their names are different -/

section Names

variable {jobId : Text} {k : Name}

theorem nodup_partKeys (n : ℕ) : (partKeys jobId n).Nodup :=
  nodup_range.map_on fun _ _ _ _ h => toDigits_injective (append_cancel_left (append_cancel_left h))

theorem nodup_procKeys (n : ℕ) : (procKeys jobId n).Nodup :=
  nodup_range.map_on fun _ _ _ _ h => toDigits_injective (append_cancel_left (append_cancel_left h))

theorem exists_of_mem_keys {key : ℕ → Name} {n : ℕ} (h : k ∈ (range n).map key) : ∃ i < n, k = key i := by
  obtain ⟨i, hi, rfl⟩ := mem_map.mp h
  exact ⟨i, mem_range.mp hi, rfl⟩

/-- The stages name their objects by their numbers. -/
theorem exists_of_mem_stageEntries {merge : V → V → V} {d : V} {fanIn fuel stage : ℕ} {vals : List V}
    (h : k ∈ (stageEntries jobId merge d fanIn fuel stage vals).map Prod.fst) :
    ∃ s b, stage ≤ s ∧ k = mergeKey jobId s b := by
  induction fuel generalizing stage vals with
  | zero => cases h
  | succ fuel ih =>
    rw [stageEntries] at h
    split at h
    · rw [map_append, mem_append, map_map] at h
      rcases h with h | h
      · obtain ⟨b, _, rfl⟩ := mem_map.mp h
        exact ⟨stage, b, le_rfl, rfl⟩
      · obtain ⟨s, b, hs, rfl⟩ := ih h
        exact ⟨s, b, by omega, rfl⟩
    · cases h

theorem nodup_stageEntries (merge : V → V → V) (d : V) (fanIn fuel stage : ℕ) (vals : List V) :
    ((stageEntries jobId merge d fanIn fuel stage vals).map Prod.fst).Nodup := by
  induction fuel generalizing stage vals with
  | zero => exact nodup_nil
  | succ fuel ih =>
    rw [stageEntries]
    split
    · rw [map_append, map_map]
      refine List.Nodup.append (nodup_range.map_on fun i _ j _ h => (mergeKey_injective h).2) (ih _ _) ?_
      intro k hk hk'
      obtain ⟨b, _, rfl⟩ := mem_map.mp hk
      obtain ⟨s, b', hs, hkey⟩ := exists_of_mem_stageEntries hk'
      have := (mergeKey_injective hkey).1
      omega
    · exact nodup_nil

end Names

namespace Job

variable {job : Job V} {initial : Name → Option V} {d m : V}

section Sources

variable {fn : V → List V} {data : V} {names : List Name}

section

variable (h : job.source = .partitioner fn data)
include h

theorem numPartitions_partitioner : job.numPartitions = (fn data).length := by rw [numPartitions, h]

theorem partitionKeys_partitioner : job.partitionKeys = partKeys job.jobId (fn data).length := by
  rw [partitionKeys, numPartitions_partitioner h, h]

theorem parts_partitioner : job.parts initial = fn data := by rw [parts, h]

theorem partEntries_partitioner : job.partEntries = (partKeys job.jobId (fn data).length).zip (fn data) := by
  rw [partEntries, h]

/-- With a partitioner the first objects are the partitions under their keys. -/
theorem partEntries_keys : job.partEntries.map Prod.fst = partKeys job.jobId (fn data).length := by
  rw [partEntries_partitioner h, map_fst_zip (by rw [partKeys, length_map, length_range])]

end

theorem partitionKeys_names (h : job.source = .prePartitioned names) : job.partitionKeys = names := by
  rw [partitionKeys, h]

theorem parts_names (h : job.source = .prePartitioned names) :
    job.parts initial = names.filterMap initial := by
  rw [parts, h]

theorem partEntries_prePartitioned (h : job.source = .prePartitioned names) : job.partEntries = [] := by
  rw [partEntries, h]

end Sources

theorem length_processedKeys (job : Job V) : job.processedKeys.length = job.numPartitions := by
  rw [processedKeys, procKeys, length_map, length_range]

variable {k key : Name}

theorem partEntries_names (h : k ∈ job.partEntries.map Prod.fst) :
    ∃ i < job.numPartitions, k = partKey job.jobId i := by
  cases hsource : job.source with
  | partitioner fn data =>
    rw [partEntries_keys hsource] at h
    rw [numPartitions_partitioner hsource]
    exact exists_of_mem_keys h
  | prePartitioned names =>
    rw [partEntries_prePartitioned hsource] at h
    cases h

/-- The names of the merge belong to the merge. -/
theorem mergeEntries_names (h : k ∈ (job.mergeEntries initial d m).map Prod.fst) :
    ∃ s, k = mark job.jobId ++ ("merge".toList ++ s) := by
  rw [mergeEntries] at h
  split at h
  · obtain ⟨s, b, _, rfl⟩ := exists_of_mem_stageEntries h
    exact ⟨_, rfl⟩
  · exact ⟨['d'], mem_singleton.mp h⟩

theorem startsWith_mark_of_mem (initial : Name → Option V) (d m : V)
    (h : k ∈ job.partEntries.map Prod.fst ∨ k ∈ job.processedKeys ∨
      k ∈ (job.mergeEntries initial d m).map Prod.fst) :
    mark job.jobId <+: k := by
  rcases h with h | h | h
  · obtain ⟨i, _, rfl⟩ := partEntries_names h
    exact startsWith_mark _ _
  · obtain ⟨i, _, rfl⟩ := exists_of_mem_keys h
    exact startsWith_mark _ _
  · obtain ⟨s, rfl⟩ := mergeEntries_names h
    exact startsWith_mark _ _

theorem partEntries_used (hk : k ∈ job.partEntries.map Prod.fst) : k ∈ job.partitionKeys := by
  cases hsource : job.source with
  | partitioner fn data => rwa [partitionKeys_partitioner hsource, ← partEntries_keys hsource]
  | prePartitioned names =>
    rw [partEntries_prePartitioned hsource] at hk
    cases hk

variable (job initial d m) in
def val : Name → Option V := valOf initial (job.entries initial d m)

theorem inputs_finalTask (job : Job V) (key : Name) : (job.finalTask key).inputs = [key] := by
  rw [finalTask]
  split
  · rfl
  · rfl

/-- All tasks but the cleanup. -/
def makers (job : Job V) (tasks : List (Task Name V)) (key : Name) : List (Task Name V) :=
  job.partitionTasks ++ (job.processTasks ++ (tasks ++ [job.finalTask key]))

/-- The objects the cleanup is given; `none` without a cleanup. -/
def removed (job : Job V) (key : Name) : Option (List Name) :=
  if job.keepIntermediate then none else some (job.intermediateKeys key)

theorem tasks_eq {mergeTasks : List (Task Name V)} (h : job.runMerge = (mergeTasks, some key)) :
    job.tasks = .ok (tasksOf (job.makers mergeTasks key) job.outputName (job.removed key)) := by
  rw [tasks, h, removed]
  by_cases hkeep : job.keepIntermediate = true
  · simp only [hkeep, if_true, append_nil, tasksOf, makers]
  · simp only [hkeep, tasksOf, makers]
    rfl

/-- The merge has the tasks `tasks` and ends with the object `key`, and the job has a plan. -/
structure Planned (job : Job V) (initial : Name → Option V) (d m : V) (tasks : List (Task Name V))
    (key : Name) : Prop where
  runMerge : job.runMerge = (tasks, some key)
  member : key ∈ job.processedKeys ∨ key ∈ (job.mergeEntries initial d m).map Prod.fst
  makes : Makes (job.val initial d m) (job.makers tasks key) ((job.entries initial d m).map Prod.fst)
  plan : Plan (job.val initial d m) initial (job.makers tasks key) job.outputName

/-- What the cleanup is given: names of partitions, the processed partitions and the result of the merge. -/
theorem mem_intermediateKeys_cases (hk : k ∈ job.intermediateKeys key) :
    (∃ s, k = mark job.jobId ++ ("part__".toList ++ s)) ∨ k ∈ job.processedKeys ∨ k = key := by
  rw [intermediateKeys, mem_append, mem_append, mem_singleton] at hk
  refine hk.imp_left fun hk => ?_
  cases hsource : job.source with
  | partitioner fn data =>
    rw [hsource] at hk
    rw [partitionKeys_partitioner hsource] at hk
    obtain ⟨i, _, rfl⟩ := exists_of_mem_keys hk
    exact ⟨_, rfl⟩
  | prePartitioned names =>
    rw [hsource] at hk
    obtain ⟨_, _, rfl⟩ := mem_map.mp hk
    exact ⟨"placeholder".toList, rfl⟩

/-- The cleanup is given names of the run only. -/
theorem startsWith_mark_of_mem_removed {tasks : List (Task Name V)}
    (hplanned : job.Planned initial d m tasks key)
    (hk : k ∈ (job.removed key).getD []) : mark job.jobId <+: k := by
  have hkeys : k ∈ job.intermediateKeys key := by
    rw [removed] at hk
    split at hk
    · cases hk
    · exact hk
  rcases mem_intermediateKeys_cases hkeys with ⟨s, rfl⟩ | hk | rfl
  · exact startsWith_mark _ _
  · exact startsWith_mark_of_mem initial d m (.inr (.inl hk))
  · exact startsWith_mark_of_mem initial d m (.inr hplanned.member)

section Start

variable (h : job.Startable initial)
include h

theorem length_parts : (job.parts initial).length = job.numPartitions := by
  cases hsource : job.source with
  | partitioner fn data => rw [parts_partitioner hsource, numPartitions_partitioner hsource]
  | prePartitioned names =>
    rw [parts_names hsource, numPartitions, hsource, length_filterMap_eq_countP, countP_eq_length]
    exact h.present names hsource

theorem length_processed : (job.processed initial).length = job.numPartitions := by
  rw [processed, length_map, length_parts h]

theorem procEntries_names : (job.procEntries initial).map Prod.fst = job.processedKeys :=
  map_fst_zip (by rw [length_processed h, length_processedKeys])

theorem mem_entries_names : k ∈ (job.entries initial d m).map Prod.fst ↔
    (k ∈ job.partEntries.map Prod.fst ∨ k ∈ job.processedKeys ∨
      k ∈ (job.mergeEntries initial d m).map Prod.fst) ∨ k = job.outputName := by
  rw [entries, map_append, map_append, map_append, mem_append, mem_append, mem_append, procEntries_names h,
    or_assoc, or_assoc]
  exact or_congr Iff.rfl (or_congr Iff.rfl (or_congr Iff.rfl mem_singleton))

theorem startsWith_mark_or_eq (hk : k ∈ (job.entries initial d m).map Prod.fst) :
    mark job.jobId <+: k ∨ k = job.outputName :=
  ((mem_entries_names h).mp hk).imp_left (startsWith_mark_of_mem initial d m)

theorem nodup_entries : ((job.entries initial d m).map Prod.fst).Nodup := by
  have hparts : (job.partEntries.map Prod.fst).Nodup := by
    cases hsource : job.source with
    | partitioner fn data =>
      rw [partEntries_keys hsource]
      exact nodup_partKeys _
    | prePartitioned names =>
      rw [partEntries_prePartitioned hsource]
      exact nodup_nil
  have hmerges : ((job.mergeEntries initial d m).map Prod.fst).Nodup := by
    rw [mergeEntries]
    split
    · exact nodup_stageEntries _ _ _ _ _ _
    · exact nodup_singleton _
  have hout : ∀ {k : Name}, mark job.jobId <+: k → k ≠ job.outputName := by
    intro k hk heq
    rw [heq] at hk
    exact h.output_fresh hk
  rw [entries, map_append, map_append, map_append, procEntries_names h]
  refine hparts.append ((nodup_procKeys _).append (hmerges.append (nodup_singleton _) ?_) ?_) ?_
  · intro k hk hk'
    exact hout (startsWith_mark_of_mem initial d m (.inr (.inr hk))) (mem_singleton.mp hk')
  · intro k hk hk'
    obtain ⟨i, _, rfl⟩ := exists_of_mem_keys hk
    rcases mem_append.mp hk' with hk' | hk'
    · obtain ⟨s, heq⟩ := mergeEntries_names hk'
      exact procKey_ne_merge i s heq
    · exact hout (startsWith_mark _ _) (mem_singleton.mp hk')
  · intro k hk hk'
    obtain ⟨i, _, rfl⟩ := partEntries_names hk
    rcases mem_append.mp hk' with hk' | hk'
    · obtain ⟨j, _, heq⟩ := exists_of_mem_keys hk'
      exact absurd heq (mark_append_ne (show "part_".toList ≠ "proc_".toList by decide))
    rcases mem_append.mp hk' with hk' | hk'
    · obtain ⟨s, heq⟩ := mergeEntries_names hk'
      exact part_ne_merge _ s heq
    · exact hout (startsWith_mark _ _) (mem_singleton.mp hk')

/-! ### The values of the names -/

theorem val_of_mem {v : V} (hk : (k, v) ∈ job.entries initial d m) :
    job.val initial d m k = some v :=
  valOf_of_mem initial (nodup_entries h) hk

theorem val_of_there (hk : (initial k).isSome) :
    k ∉ (job.entries initial d m).map Prod.fst ∧ job.val initial d m k = initial k := by
  have hother : k ∉ (job.entries initial d m).map Prod.fst := by
    intro hmem
    rcases startsWith_mark_or_eq h hmem with hmark | rfl
    · exact h.fresh k hk hmark
    · rw [h.output] at hk
      cases hk
  exact ⟨hother, valOf_of_notMem initial hother⟩

theorem holds_names {names : List Name} (hnames : ∀ k ∈ names, (initial k).isSome) :
    Holds (job.val initial d m) names (names.filterMap initial) := by
  induction names with
  | nil => exact List.Forall₂.nil
  | cons k names ih =>
    obtain ⟨v, hv⟩ := Option.isSome_iff_exists.mp (hnames k mem_cons_self)
    rw [filterMap_cons, hv]
    refine List.Forall₂.cons ?_ (ih fun l hl => hnames l (mem_cons_of_mem k hl))
    rw [(val_of_there h (hnames k mem_cons_self)).2, hv]

theorem holds_partitionKeys : Holds (job.val initial d m) job.partitionKeys (job.parts initial) := by
  cases hsource : job.source with
  | partitioner fn data =>
    rw [partitionKeys_partitioner hsource, parts_partitioner hsource]
    refine forall₂_iff_zip.mpr ⟨by rw [partKeys, length_map, length_range], fun hkv => val_of_mem h ?_⟩
    rw [← partEntries_partitioner hsource] at hkv
    exact mem_append_left _ hkv
  | prePartitioned names =>
    rw [partitionKeys_names hsource, parts_names hsource]
    exact holds_names h (h.present names hsource)

theorem holds_processedKeys : Holds (job.val initial d m) job.processedKeys (job.processed initial) := by
  refine forall₂_iff_zip.mpr ⟨by rw [length_processedKeys, length_processed h], fun hkv => val_of_mem h ?_⟩
  exact mem_append_right _ (mem_append_left _ hkv)

theorem val_output : job.val initial d m job.outputName = some (job.finish m) := by
  apply val_of_mem h
  rw [entries]
  simp

theorem processed_ne_nil : job.processed initial ≠ [] := by
  apply ne_nil_of_length_pos
  rw [length_processed h]
  exact h.nonempty

theorem exists_mergedValue (d : V) : ∃ m, job.mergedValue initial d = [m] := by
  rw [mergedValue]
  split
  · have hlength := length_processed h
    exact exists_summaryValues d _ (processed_ne_nil h) hlength.le (by omega)
  · obtain ⟨m, hm⟩ := fold1_isSome job.merge (processed_ne_nil h)
    exact ⟨m, by rw [hm]; rfl⟩

/-! ### The tasks -/

/-- The keys of the partitions are written by the partition task, or there from the start. -/
theorem stages_partitionTasks : ∃ start, (∀ k ∈ start, (initial k).isSome) ∧
    Stages (job.val initial d m) start (job.partEntries.map Prod.fst) job.partitionKeys
      job.partitionTasks := by
  cases hsource : job.source with
  | partitioner fn data =>
    have hbody : (partitionTask job.jobId fn data).body = .writeAll job.partEntries := by
      rw [partEntries_partitioner hsource]
      rfl
    have hnonempty := h.nonempty
    rw [numPartitions_partitioner hsource] at hnonempty
    rw [partitionTasks, hsource, partitionKeys_partitioner hsource, ← partEntries_keys hsource]
    refine ⟨[], nofun, .level ⟨forall_mem_singleton.mpr ?_, ?_⟩ (forall_mem_singleton.mpr nofun) nofun⟩
    · rw [hbody]
      refine ⟨Prog.follows_writeAll fun e he => val_of_mem h (mem_append_left _ he), ?_⟩
      rw [Prog.outs_writeAll, partEntries_keys hsource]
      apply ne_nil_of_length_pos
      rwa [partKeys, length_map, length_range]
    · show (partitionTask job.jobId fn data).body.outs _ ++ [] = _
      rw [hbody, Prog.outs_writeAll, append_nil]
  | prePartitioned names =>
    rw [partitionTasks, partEntries_prePartitioned hsource, partitionKeys_names hsource, hsource]
    exact ⟨names, h.present names hsource, .refl names⟩

theorem val_partitionKey {i : ℕ} (hi : i < job.numPartitions) : ∃ v,
    job.val initial d m (job.partitionKeys[i]?.getD []) = some v ∧
      job.val initial d m (procKey job.jobId i) = some (job.process v) := by
  have hparts := holds_partitionKeys (d := d) (m := m) h
  have hprocessed := holds_processedKeys (d := d) (m := m) h
  have hi' : i < (job.parts initial).length := by rwa [length_parts h]
  have hik : i < job.partitionKeys.length := by rwa [hparts.length_eq]
  have hip : i < job.processedKeys.length := by rwa [length_processedKeys]
  refine ⟨(job.parts initial)[i], ?_, ?_⟩
  · rw [getElem?_eq_getElem hik]
    exact (forall₂_iff_get.mp hparts).2 i hik hi'
  · have hval := (forall₂_iff_get.mp hprocessed).2 i hip (by rwa [length_processed h])
    simpa [processedKeys, procKeys, processed] using hval

theorem stages_processTasks :
    Stages (job.val initial d m) job.partitionKeys job.processedKeys job.processedKeys job.processTasks := by
  have hlength : job.partitionKeys.length = job.numPartitions := by
    rw [(holds_partitionKeys (d := d) (m := m) h).length_eq, length_parts h]
  refine .level (.map fun i hi => ?_) (fun t ht k hk => ?_) fun k hk => ?_
  · obtain ⟨v, hpart, hproc⟩ := val_partitionKey (d := d) (m := m) h (mem_range.mp hi)
    exact follows_single job.process hpart hproc
  · obtain ⟨i, hi, rfl⟩ := mem_map.mp ht
    have hi : i < job.partitionKeys.length := hlength ▸ mem_range.mp hi
    rw [mem_singleton.mp hk, getElem?_eq_getElem hi]
    exact getElem_mem hi
  · obtain ⟨i, hi, rfl⟩ := getElem_of_mem hk
    refine ⟨_, mem_map_of_mem (mem_range.mpr (hlength ▸ hi)), ?_⟩
    rw [getElem?_eq_getElem hi]
    exact mem_singleton_self _

/-- Either merge ends with one object. -/
theorem exists_runMerge (hm : job.mergedValue initial d = [m]) :
    ∃ tasks key, job.runMerge = (tasks, some key) ∧ job.val initial d m key = some m ∧
      Stages (job.val initial d m) job.processedKeys ((job.mergeEntries initial d m).map Prod.fst) [key]
        tasks := by
  have hmem : ∀ e ∈ job.mergeEntries initial d m, job.val initial d m e.1 = some e.2 := by
    intro e he
    apply val_of_mem h
    exact mem_append_right _ (mem_append_right _ (mem_append_left _ he))
  have hholds := holds_processedKeys (d := d) (m := m) h
  have hpos := h.nonempty
  cases htype : job.mergeType with
  | summary =>
    have hstages : job.mergeEntries initial d m = stageEntries job.jobId job.merge d (min job.numPartitions 8)
        job.numPartitions 0 (job.processed initial) := by rw [mergeEntries, htype]
    rw [hstages] at hmem ⊢
    obtain ⟨htasks, hlast⟩ := stages_summaryStages d (by omega) job.numPartitions 0 hholds hmem
    rw [mergedValue, htype] at hm
    dsimp only at hm
    rw [hm] at hlast
    obtain ⟨key, hkey, hsummary⟩ : ∃ key, job.val initial d m key = some m ∧
        (summaryStages job.jobId job.merge (min job.numPartitions 8) job.numPartitions 0
          job.processedKeys).2 = [key] := by
      obtain ⟨key, keys, hkey, hnil, heq⟩ := forall₂_cons_right_iff.mp hlast
      cases hnil
      exact ⟨key, hkey, heq⟩
    rw [hsummary] at htasks
    refine ⟨_, key, ?_, hkey, htasks⟩
    rw [runMerge, htype]
    simp only [hsummary]
    rfl
  | full =>
    have hsingle : job.mergeEntries initial d m = [(mergedKey job.jobId, m)] := by rw [mergeEntries, htype]
    rw [hsingle] at hmem ⊢
    have hval : job.val initial d m (mergedKey job.jobId) = some m := hmem _ mem_cons_self
    have hfold : fold1 job.merge (job.processed initial) = some m := by
      rw [mergedValue, htype] at hm
      exact Option.toList_eq_singleton_iff.mp hm
    refine ⟨[fullMergeTask job.merge job.processedKeys (mergedKey job.jobId)], mergedKey job.jobId,
      by rw [runMerge, htype], hval, .level (.single (follows_merge hholds hfold hval)) ?_ fun k hk => ?_⟩
    · exact forall_mem_singleton.mpr fun k hk => hk
    · exact ⟨_, mem_singleton_self _, hk⟩

theorem stages_finalTask {key : Name} (hkey : job.val initial d m key = some m) :
    Stages (job.val initial d m) [key] [job.outputName] [job.outputName] [job.finalTask key] := by
  have hout := val_output (d := d) (m := m) h
  refine .level (.single ?_) (forall_mem_singleton.mpr fun k hk => ?_)
    fun k hk => ⟨_, mem_singleton_self _, ?_⟩
  · rw [finish] at hout
    rw [finalTask]
    split
    · next finalize hfinalize =>
      rw [hfinalize] at hout
      exact follows_single finalize hkey hout
    · next hfinalize =>
      rw [hfinalize] at hout
      exact follows_single id hkey hout
  · rwa [inputs_finalTask] at hk
  · rwa [inputs_finalTask]

theorem exists_planned :
    ∃ d m tasks key, job.mergedValue initial d = [m] ∧ job.Planned initial d m tasks key := by
  obtain ⟨d, _⟩ := exists_mem_of_ne_nil _ (processed_ne_nil h)
  obtain ⟨m, hm⟩ := exists_mergedValue h d
  obtain ⟨start, hstart, hpartition⟩ := stages_partitionTasks (d := d) (m := m) h
  obtain ⟨tasks, key, hrun, hkey, hmerge⟩ := exists_runMerge h hm
  have hstages : Stages (job.val initial d m) start ((job.entries initial d m).map Prod.fst) [job.outputName]
      (job.makers tasks key) := by
    rw [entries, map_append, map_append, map_append, procEntries_names h]
    exact hpartition.trans ((stages_processTasks h).trans (hmerge.trans (stages_finalTask h hkey)))
  have hmember : key ∈ job.processedKeys ∨ key ∈ (job.mergeEntries initial d m).map Prod.fst := by
    rw [← hmerge.makes.generated]
    exact (hmerge.available (fun k => k ∈ job.processedKeys) fun k hk => hk).2 key (mem_singleton_self key)
  refine ⟨d, m, tasks, key, hm, hrun, hmember, hstages.makes,
    hstages.plan (nodup_entries h) (fun k hk => ?_) ?_ (fun k hk => ?_)
      fun k hk => (valOf_of_notMem initial hk).symm⟩
  · have hval := val_of_there (d := d) (m := m) h (hstart k hk)
    exact ⟨hval.1, hval.2 ▸ hstart k hk⟩
  · rw [val_output h]
    rfl
  · by_contra hsome
    exact (val_of_there (d := d) (m := m) h (Option.isSome_iff_ne_none.mpr hsome)).1 hk

/-! ### Every order of execution computes the fold -/

/-- With an associative merge both ways of merging end with the fold. -/
theorem fold1_processed
    (hassoc : ∀ a b c, job.merge (job.merge a b) c = job.merge a (job.merge b c))
    (hm : job.mergedValue initial d = [m]) : fold1 job.merge (job.processed initial) = some m := by
  rw [mergedValue] at hm
  split at hm
  · have hpos := h.nonempty
    rw [← fold1_summaryValues d hassoc (show 0 < min job.numPartitions 8 by omega) job.numPartitions, hm]
    rfl
  · exact Option.toList_eq_singleton_iff.mp hm

end Start

/-- The tasks of a job, in whatever order they are carried out: no task misses an object, finds one in the
place of its own or raises an error; every run can be carried on until all tasks have finished, within a
bound that does not depend on the order; and then the output is what is expected. -/
structure ComputesFold (job : Job V) (plan : Except RunError (List (Task Name V)))
    (initial : Name → Option V) : Prop where
  submitted : ∃ tasks result, plan = .ok tasks ∧ job.expected initial = some result ∧
    (∃ bound, ∀ acts w, run (step tasks) (.init initial) acts = some w →
      acts.length ≤ bound ∧ w.faults = 0 ∧ (Finished tasks w → w.store job.outputName = some result) ∧
        (¬ Finished tasks w → ∃ act w', step tasks w act = some w')) ∧
    ∃ acts w, run (step tasks) (.init initial) acts = some w ∧ Finished tasks w

section Run

variable {mr : MapReduceJob V} {jobId : Text} {inputData : Option V} (hjob : mr.job jobId inputData = .ok job)

include hjob

/-- **Every order computes the fold**, for the tasks that `run` submits. -/
theorem computes_fold (h : job.Startable initial)
    (hassoc : ∀ a b c, job.merge (job.merge a b) c = job.merge a (job.merge b c)) :
    job.ComputesFold (mr.run jobId inputData) initial := by
  obtain ⟨d, m, tasks, key, hm, hplanned⟩ := exists_planned h
  have hplan := hplanned.plan
  have hkept : job.outputName ∉ (job.removed key).getD [] :=
    fun hmem => h.output_fresh (startsWith_mark_of_mem_removed hplanned hmem)
  have hexpected : job.expected initial = some (job.finish m) := by
    rw [expected, fold1_processed h hassoc hm]
    rfl
  refine ⟨_, job.finish m, (MapReduceJob.run_of_job hjob).trans (tasks_eq hplanned.runMerge), hexpected,
    ⟨work (job.val initial d m) (tasksOf (job.makers tasks key) job.outputName (job.removed key))
      (.init initial), fun acts w hacts => ?_⟩, exists_finished hplan (.inl (working_init hplan))⟩
  have hinv := run_inv hplan hacts
  refine ⟨run_length_le hplan hacts, hinv.calm, fun hfinished => ?_, exists_step_of_not_finished hplan hinv⟩
  rw [store_of_finished hinv hfinished, if_neg hkept, val_output h]

omit hjob

/-- However far the tasks have come, they can be carried to the end, and all ways to do it leave the same
objects.  At no time is an object changed that was there before. -/
def EndsAlike (plan : Except RunError (List (Task Name V))) (initial : Name → Option V) : Prop :=
  ∃ tasks final, plan = .ok tasks ∧ ∀ acts w, run (step tasks) (.init initial) acts = some w →
    (∃ acts' w', run (step tasks) w acts' = some w' ∧ Finished tasks w') ∧
      (Finished tasks w → w.store = final) ∧ ∀ k, (initial k).isSome → w.store k = initial k

include hjob

/-- **Every order leaves the same database**, whatever the merge is. -/
theorem ends_alike (h : job.Startable initial) : EndsAlike (mr.run jobId inputData) initial := by
  obtain ⟨d, m, tasks, key, -, hplanned⟩ := exists_planned h
  have hplan := hplanned.plan
  obtain ⟨acts₀, final, hrun₀, hfinal⟩ := exists_finished hplan (.inl (working_init hplan))
  refine ⟨_, final.store, (MapReduceJob.run_of_job hjob).trans (tasks_eq hplanned.runMerge),
    fun acts w hrun => ?_⟩
  have hinv := run_inv hplan hrun
  refine ⟨exists_finished hplan hinv, fun hfinished => funext fun k => ?_, fun k hk => ?_⟩
  · rw [store_of_finished hinv hfinished, store_of_finished (run_inv hplan hrun₀) hfinal]
  obtain ⟨hother, hval⟩ := val_of_there (d := d) (m := m) h hk
  rw [← hval]
  rcases hinv with hworking | ⟨keys, hkeys, hcleaning⟩
  · -- what is still to be written has a name of the run
    refine hworking.stored k fun ⟨i, t, ht, hout⟩ => hother ?_
    rw [← hplanned.makes.generated]
    exact mem_generated.mpr ⟨i, t, ht, (hworking.suffix i t ht).subset hout⟩
  · obtain ⟨gone, rest, rfl, -, -, hkept⟩ := hcleaning.removing
    refine hkept k fun hgone => h.fresh k hk (startsWith_mark_of_mem_removed hplanned ?_)
    rw [hkeys]
    exact mem_append_left rest hgone

end Run

end Job

/-- Ten partitions `0, …, 9`, each plus one, added up in a tree and doubled. -/
def sampleJob : Job ℕ where
  jobId := "0a1b2c3d".toList
  source := .partitioner range 10
  process := (· + 1)
  merge := (· + ·)
  mergeType := .summary
  finalize := some (2 * ·)
  outputName := "result".toList
  keepIntermediate := false

/-- What the user sets for `sampleJob`. -/
def sampleSetup : MapReduceJob ℕ where
  outputName := "result".toList
  partitionFn := some range
  processFn := some (· + 1)
  mergeFn := some (· + ·)
  finalizeFn := some (2 * ·)

theorem job_sampleSetup : sampleSetup.job "0a1b2c3d".toList (some 10) = .ok sampleJob := rfl

theorem startable_sampleJob : sampleJob.Startable fun _ => none := by
  refine ⟨by decide, fun names hnames => ?_, rfl, fun k hk => ?_, by decide⟩
  · cases hnames
  · cases hk

theorem computes_fold_sampleJob : sampleJob.expected (fun _ => none) = some 110 ∧
    sampleJob.ComputesFold (sampleSetup.run "0a1b2c3d".toList (some 10)) fun _ => none :=
  ⟨by decide, Job.computes_fold job_sampleSetup startable_sampleJob Nat.add_assoc⟩

theorem ends_alike_sampleJob : Job.EndsAlike (sampleSetup.run "0a1b2c3d".toList (some 10)) fun _ => none :=
  Job.ends_alike job_sampleSetup startable_sampleJob

end Fly.MapReduce
