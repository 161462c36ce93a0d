import Fly.MapReduce.Plan

/-!
# What a MapReduce job leaves behind

The cleanup is given the keys of the partitions, of the processed partitions and of the result of the
merge.  The full merge has no other object, and neither has a summary tree of one stage; the objects between
the stages of a higher tree are on no list and stay.
-/

namespace Fly.MapReduce

open Fly.Lib Fly.Lib.Dataflow List

variable {V : Type}

/-! ### The keys of the stages -/

section Stages

variable {merge : V → V → V} {jobId : Text} {fanIn stage fuel : ℕ} {keys : List Name} {vals : List V}

theorem summaryStages_keys {k : Name} (h : k ∈ (summaryStages jobId merge fanIn fuel stage keys).2) :
    k ∈ keys ∨ ∃ s b, stage ≤ s ∧ k = mergeKey jobId s b := by
  induction fuel generalizing stage keys with
  | zero => exact .inl h
  | succ fuel ih =>
    rw [summaryStages] at h
    split at h
    · rcases ih h with hk | ⟨s, b, hs, rfl⟩
      · obtain ⟨b, _, rfl⟩ := mem_map.mp hk
        exact .inr ⟨stage, b, le_rfl, rfl⟩
      · exact .inr ⟨s, b, by omega, rfl⟩
    · exact .inl h

theorem batchCount_self {n : ℕ} (h : 0 < n) : batchCount n n = 1 := Nat.div_eq_of_lt_le (by omega) (by omega)

/-- One stage: the keys come down to one. -/
theorem summaryStages_of_batchCount (hfuel : 0 < fuel) (hmany : 1 < keys.length)
    (hcount : batchCount fanIn keys.length = 1) :
    (summaryStages jobId merge fanIn fuel stage keys).2 = [mergeKey jobId stage 0] := by
  obtain ⟨fuel, rfl⟩ := Nat.exists_eq_add_one.mpr hfuel
  rw [summaryStages, if_pos hmany, hcount]
  exact congrArg Prod.snd (summaryStages_of_le _ _ le_rfl)

theorem stageEntries_of_batchCount (d : V) (hfuel : 0 < fuel) (hmany : 1 < vals.length)
    (hcount : batchCount fanIn vals.length = 1) :
    (stageEntries jobId merge d fanIn fuel stage vals).map Prod.fst = [mergeKey jobId stage 0] := by
  obtain ⟨fuel, rfl⟩ := Nat.exists_eq_add_one.mpr hfuel
  have hnext : (nextValues merge d fanIn vals).length ≤ 1 := by rw [length_nextValues, hcount]
  rw [stageEntries, if_pos hmany, hcount, stageEntries_of_le d _ _ hnext]
  rfl

/-- The first object of a stage. -/
theorem mergeKey_mem_stageEntries (d : V) (hfuel : 0 < fuel) (hmany : 1 < vals.length)
    (hf : 0 < fanIn) :
    mergeKey jobId stage 0 ∈ (stageEntries jobId merge d fanIn fuel stage vals).map Prod.fst := by
  obtain ⟨fuel, rfl⟩ := Nat.exists_eq_add_one.mpr hfuel
  rw [stageEntries, if_pos hmany, map_append, map_map]
  have hpos : 0 < batchCount fanIn vals.length := batchCount_pos hf (by omega)
  exact mem_append_left _ (mem_map.mpr ⟨0, mem_range.mpr hpos, rfl⟩)

end Stages

namespace Job

variable {job : Job V} {initial : Name → Option V} {d m : V} {tasks : List (Task Name V)} {key k : Name}

theorem runMerge_summary (htype : job.mergeType = .summary) (h : job.runMerge = (tasks, some key)) :
    (summaryStages job.jobId job.merge (min job.numPartitions 8) job.numPartitions 0
      job.processedKeys).2.head?.or job.processedKeys.head? = some key := by
  rw [runMerge, htype] at h
  exact congrArg Prod.snd h

/-- A tree of at most one stage has no object but its result. -/
theorem mergeEntries_of_le (h : job.Startable initial) (htype : job.mergeType = .summary)
    (hle : job.numPartitions ≤ 8)
    (hrun : job.runMerge = (tasks, some key)) (hk : k ∈ (job.mergeEntries initial d m).map Prod.fst) :
    k = key := by
  have hkey := runMerge_summary htype hrun
  have hkeys := length_processedKeys job
  have hvals := length_processed h
  have hpos := h.nonempty
  have hfan : min job.numPartitions 8 = job.numPartitions := by omega
  rw [mergeEntries, htype, hfan] at hk
  rw [hfan] at hkey
  by_cases hone : job.numPartitions = 1
  · rw [stageEntries_of_le d _ _ (by omega)] at hk
    cases hk
  have hcount := batchCount_self hpos
  rw [stageEntries_of_batchCount d hpos (by omega) (by rwa [hvals])] at hk
  rw [summaryStages_of_batchCount hpos (by omega) (by rwa [hkeys])] at hkey
  rw [mem_singleton.mp hk]
  exact Option.some.inj hkey

/-- The first object of the first stage of a tree of more stages. -/
theorem mergeKey_mem_mergeEntries (h : job.Startable initial) (htype : job.mergeType = .summary)
    (hgt : 8 < job.numPartitions) : mergeKey job.jobId 0 0 ∈ (job.mergeEntries initial d m).map Prod.fst := by
  have hvals := length_processed h
  rw [mergeEntries, htype]
  exact mergeKey_mem_stageEntries d (by omega) (by omega) (by omega)

/-- The result of such a tree is not it. -/
theorem key_ne_mergeKey (htype : job.mergeType = .summary) (hgt : 8 < job.numPartitions)
    (hrun : job.runMerge = (tasks, some key)) : key ≠ mergeKey job.jobId 0 0 := by
  have hkey := runMerge_summary htype hrun
  have hkeys := length_processedKeys job
  have hfan : min job.numPartitions 8 = 8 := by omega
  obtain ⟨fuel, hfuel⟩ : ∃ fuel, job.numPartitions = fuel + 1 + 1 := ⟨job.numPartitions - 2, by omega⟩
  rw [hfan] at hkey
  intro heq
  cases hhead : (summaryStages job.jobId job.merge 8 job.numPartitions 0 job.processedKeys).2.head? with
  | none =>
    rw [hhead, Option.none_or] at hkey
    obtain ⟨i, _, hi⟩ := exists_of_mem_keys (mem_of_head? hkey)
    exact procKey_ne_merge i _ (hi.symm.trans heq)
  | some k =>
    rw [hhead, Option.some_or] at hkey
    cases hkey
    have hmem := mem_of_head? hhead
    rw [hfuel, summaryStages, if_pos (by omega)] at hmem
    have hmany : 1 < ((range (batchCount 8 job.processedKeys.length)).map (mergeKey job.jobId 0)).length := by
      rw [length_map, length_range, hkeys, batchCount]
      omega
    replace hmem : key ∈ (summaryStages job.jobId job.merge 8 (fuel + 1) (0 + 1) _).2 := hmem
    rw [summaryStages, if_pos hmany] at hmem
    -- a key of the second stage, or of a later one
    obtain ⟨s, b, hs, hkey⟩ : ∃ s b, 1 ≤ s ∧ key = mergeKey job.jobId s b := by
      rcases summaryStages_keys hmem with hk | ⟨s, b, hs, hkey⟩
      · obtain ⟨b, _, rfl⟩ := mem_map.mp hk
        exact ⟨_, b, le_rfl, rfl⟩
      · exact ⟨s, b, by omega, hkey⟩
    have := (mergeKey_injective (heq.symm.trans hkey)).1
    omega

theorem mem_intermediateKeys (job : Job V) (key k : Name) :
    (k ∈ job.partEntries.map Prod.fst → k ∈ job.intermediateKeys key) ∧
      (k ∈ job.processedKeys → k ∈ job.intermediateKeys key) ∧ (k = key → k ∈ job.intermediateKeys key) := by
  refine ⟨fun hk => mem_append_left _ ?_, fun hk => mem_append_right _ (mem_append_left _ hk),
    fun hk => mem_append_right _ (mem_append_right _ (mem_singleton.mpr hk))⟩
  cases hsource : job.source with
  | partitioner fn data => exact partEntries_used hk
  | prePartitioned names =>
    rw [partEntries_prePartitioned hsource] at hk
    cases hk

theorem mergeKey_notMem_intermediateKeys (hkey : key ≠ mergeKey job.jobId 0 0) :
    mergeKey job.jobId 0 0 ∉ job.intermediateKeys key := by
  intro hmem
  rcases mem_intermediateKeys_cases hmem with ⟨s, hpart⟩ | hk | heq
  · exact part_ne_merge s _ hpart.symm
  · obtain ⟨i, _, hi⟩ := exists_of_mem_keys hk
    exact procKey_ne_merge i _ hi.symm
  · exact hkey heq.symm

/-! ### What is left -/

/-- With the full merge, or with one stage at most, all objects of a run but its output are on the list. -/
theorem mem_intermediateKeys_of_mem_entries (h : job.Startable initial)
    (hcond : job.mergeType = .full ∨ job.numPartitions ≤ 8) (hrun : job.runMerge = (tasks, some key))
    (hk : k ∈ (job.entries initial d m).map Prod.fst) (hout : k ≠ job.outputName) :
    k ∈ job.intermediateKeys key := by
  obtain ⟨hparts, hprocessed, hresult⟩ := mem_intermediateKeys job key k
  rcases (mem_entries_names h).mp hk with (hk | hk | hk) | hk
  · exact hparts hk
  · exact hprocessed hk
  · apply hresult
    cases htype : job.mergeType with
    | summary =>
      refine mergeEntries_of_le h htype (hcond.resolve_left ?_) hrun hk
      rw [htype]
      decide
    | full =>
      rw [mergeEntries, htype] at hk
      rw [runMerge, htype] at hrun
      cases hrun
      exact mem_singleton.mp hk
  · exact absurd hk hout

/-- The run can be finished, and however it was, then no name of the run is left and the objects that were
there before it are there as they were. -/
def CleansUp (job : Job V) (plan : Except RunError (List (Task Name V))) (initial : Name → Option V) : Prop :=
  ∃ tasks, plan = .ok tasks ∧
    (∃ acts w, run (step tasks) (.init initial) acts = some w ∧ Finished tasks w) ∧
    ∀ acts w, run (step tasks) (.init initial) acts = some w → Finished tasks w →
      (∀ k, mark job.jobId <+: k → w.store k = none) ∧ ∀ k, (initial k).isSome → w.store k = initial k

/-- What is there when all tasks of a job with a cleanup have finished. -/
theorem store_of_cleaned (hkeep : job.keepIntermediate = false) (hplanned : job.Planned initial d m tasks key)
    {acts : List Act} {w : World Name V}
    (hrun : run (step (tasksOf (job.makers tasks key) job.outputName (job.removed key))) (.init initial)
      acts = some w)
    (hfinished : Finished (tasksOf (job.makers tasks key) job.outputName (job.removed key)) w) (k : Name) :
    w.store k = if k ∈ job.intermediateKeys key then none else job.val initial d m k := by
  have hremoved : (job.removed key).getD [] = job.intermediateKeys key := by
    rw [removed, hkeep]
    rfl
  rw [store_of_finished (run_inv hplanned.plan hrun) hfinished]
  by_cases hk : k ∈ job.intermediateKeys key
  · rw [if_pos hk, if_pos (hremoved ▸ hk)]
  · rw [if_neg hk, if_neg (hremoved ▸ hk)]

theorem cleansUp_of_cond (h : job.Startable initial) (hkeep : job.keepIntermediate = false)
    (hcond : job.mergeType = .full ∨ job.numPartitions ≤ 8) : job.CleansUp job.tasks initial := by
  obtain ⟨d, m, tasks, key, _, hplanned⟩ := exists_planned h
  refine ⟨_, tasks_eq hplanned.runMerge, exists_finished hplanned.plan (.inl (working_init hplanned.plan)),
    fun acts w hrun hfinished => ⟨fun k hk => ?_, fun k hk => ?_⟩⟩
  · rw [store_of_cleaned hkeep hplanned hrun hfinished]
    split
    · rfl
    rename_i hkept
    have hother : k ∉ (job.entries initial d m).map Prod.fst := by
      intro hmem
      refine hkept (mem_intermediateKeys_of_mem_entries h hcond hplanned.runMerge hmem ?_)
      intro hout
      exact h.output_fresh (hout ▸ hk)
    rw [val, valOf_of_notMem initial hother]
    by_contra hsome
    exact h.fresh k (Option.isSome_iff_ne_none.mpr hsome) hk
  · have hkept : k ∉ job.intermediateKeys key := by
      intro hmem
      refine h.fresh k hk (startsWith_mark_of_mem_removed hplanned ?_)
      rw [removed, hkeep]
      exact hmem
    rw [store_of_cleaned hkeep hplanned hrun hfinished, if_neg hkept, (val_of_there h hk).2]

/-- A tree of more than one stage leaves the objects of its first stage. -/
theorem not_cleansUp (h : job.Startable initial) (hkeep : job.keepIntermediate = false)
    (htype : job.mergeType = .summary) (hgt : 8 < job.numPartitions) : ¬ job.CleansUp job.tasks initial := by
  rintro ⟨all, htasks, ⟨acts, w, hrun, hfinished⟩, hclean⟩
  obtain ⟨d, m, tasks, key, _, hplanned⟩ := exists_planned h
  rw [tasks_eq hplanned.runMerge] at htasks
  cases htasks
  have hnone := (hclean acts w hrun hfinished).1 (mergeKey job.jobId 0 0) (startsWith_mark _ _)
  have hkey := key_ne_mergeKey htype hgt hplanned.runMerge
  rw [store_of_cleaned hkeep hplanned hrun hfinished, if_neg (mergeKey_notMem_intermediateKeys hkey)] at hnone
  have hmem : mergeKey job.jobId 0 0 ∈ (job.entries initial d m).map Prod.fst :=
    (mem_entries_names h).mpr (.inl (.inr (.inr (mergeKey_mem_mergeEntries h htype hgt))))
  obtain ⟨⟨k, v⟩, he, rfl⟩ := mem_map.mp hmem
  rw [val_of_mem h he] at hnone
  cases hnone

/-- **The cleanup**, of the tasks that `run` submits, is complete for a merge in one stage and for no
other. -/
theorem cleansUp_iff {mr : MapReduceJob V} {jobId : Text} {inputData : Option V}
    (hjob : mr.job jobId inputData = .ok job) (h : job.Startable initial)
    (hkeep : job.keepIntermediate = false) :
    job.CleansUp (mr.run jobId inputData) initial ↔ job.mergeType = .full ∨ job.numPartitions ≤ 8 := by
  rw [MapReduceJob.run_of_job hjob]
  constructor
  · intro hclean
    cases htype : job.mergeType with
    | full => exact .inl rfl
    | summary =>
      refine .inr (Nat.le_of_not_lt fun hgt => ?_)
      exact not_cleansUp h hkeep htype hgt hclean
  · exact cleansUp_of_cond h hkeep

end Job

/-- Three objects of the database, merged in a tree. -/
def namedJob : Job ℕ where
  jobId := "4e5f6a7b".toList
  source := .prePartitioned ["a".toList, "b".toList, "a".toList]
  process := id
  merge := Nat.max
  mergeType := .summary
  finalize := none
  outputName := "largest".toList
  keepIntermediate := false

/-- The database of `namedJob`. -/
def namedStore (k : Name) : Option ℕ :=
  if k = "a".toList then some 1 else if k = "b".toList then some 2 else none

/-- What the user sets for `namedJob`. -/
def namedSetup : MapReduceJob ℕ where
  outputName := "largest".toList
  prePartitionedNames := some ["a".toList, "b".toList, "a".toList]
  processFn := some id
  mergeFn := some Nat.max

theorem startable_namedJob : namedJob.Startable namedStore := by
  have hnames : ∀ k, (namedStore k).isSome → k = "a".toList ∨ k = "b".toList := by
    intro k hk
    rw [namedStore] at hk
    split at hk
    · next ha => exact .inl ha
    · split at hk
      · next hb => exact .inr hb
      · cases hk
  refine ⟨by decide, fun names hsource => ?_, by decide, fun k hk => ?_, by decide⟩
  · cases hsource
    decide
  · rcases hnames k hk with rfl | rfl
    · decide
    · decide

theorem cleansUp_namedJob : namedJob.CleansUp (namedSetup.run "4e5f6a7b".toList none) namedStore ∧
    namedJob.numPartitions = 3 :=
  ⟨(Job.cleansUp_iff rfl startable_namedJob rfl).mpr (.inr (by decide)), by decide⟩

theorem stages_left_behind : sampleJob.Startable (fun _ => none) ∧ sampleJob.keepIntermediate = false ∧
    ¬ sampleJob.CleansUp (sampleSetup.run "0a1b2c3d".toList (some 10)) fun _ => none := by
  rw [MapReduceJob.run_of_job job_sampleSetup]
  exact ⟨startable_sampleJob, rfl, Job.not_cleansUp startable_sampleJob rfl rfl (by decide)⟩

end Fly.MapReduce
