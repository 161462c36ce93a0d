import Mathlib.Data.List.Forall2
import Mathlib.Tactic.Ring
import Fly.MapReduce.Job

/-!
# Merging in batches and in stages

The values of a stage of the summary tree are the merges of the batches of the stage below.  With an
associative merge each stage has the same fold as the one below it (`fold1_batches`), down to the processed
partitions (`fold1_summaryValues`).  `stages_summaryStages` says what the tasks of the stages do, whatever the
merge.
-/

namespace Fly.MapReduce

open Fly.Lib Fly.Lib.Dataflow List Nat Prog

variable {V : Type}

/-! ### Batches -/

section Batches

variable {α : Type} {fanIn len : ℕ} {l : List α}

theorem flatten_batches_take (fanIn : ℕ) (l : List α) (m : ℕ) :
    ((range m).map (batch fanIn l)).flatten = l.take (m * fanIn) := by
  induction m with
  | zero => rw [zero_mul, take_zero]; rfl
  | succ m ih =>
    rw [range_succ, map_append, flatten_append, ih, succ_mul, take_add]
    exact congrArg _ (append_nil _)

/-- The batches are the list, cut into pieces. -/
theorem flatten_batches (hf : 0 < fanIn) (l : List α) :
    ((range (batchCount fanIn l.length)).map (batch fanIn l)).flatten = l := by
  have h := lt_div_mul_add (a := l.length + fanIn - 1) hf
  rw [flatten_batches_take, take_of_length_le (by rw [batchCount]; omega)]

theorem batch_ne_nil (hf : 0 < fanIn) {b : ℕ} (hb : b < batchCount fanIn l.length) :
    batch fanIn l b ≠ [] := by
  have hmul : (b + 1) * fanIn ≤ l.length + fanIn - 1 := (le_div_iff_mul_le hf).mp hb
  rw [succ_mul] at hmul
  apply ne_nil_of_length_pos
  rw [batch, length_take, length_drop]
  omega

theorem batchCount_pos (hf : 0 < fanIn) (h : 0 < len) : 0 < batchCount fanIn len :=
  div_pos (by omega) hf

theorem batchCount_lt (hf : 2 ≤ fanIn) (h : 2 ≤ len) : batchCount fanIn len < len := by
  rw [batchCount, Nat.div_lt_iff_lt_mul (by omega)]
  obtain ⟨g, rfl⟩ := Nat.exists_eq_add_of_le hf
  obtain ⟨m, rfl⟩ := Nat.exists_eq_add_of_le h
  have hprod : (2 + m) * (2 + g) = 4 + 2 * g + 2 * m + m * g := by ring
  omega

theorem mem_batch_of_mem (hf : 0 < fanIn) {a : α} (h : a ∈ l) :
    ∃ b < batchCount fanIn l.length, a ∈ batch fanIn l b := by
  rw [← flatten_batches hf l, mem_flatten] at h
  obtain ⟨piece, hpiece, ha⟩ := h
  obtain ⟨b, hb, rfl⟩ := mem_map.mp hpiece
  exact ⟨b, mem_range.mp hb, ha⟩

end Batches

/-! ### Folds -/

section Folds

variable {merge : V → V → V} (hassoc : ∀ a b c, merge (merge a b) c = merge a (merge b c))
  {pieces : List (List V)}

theorem fold1_isSome (merge : V → V → V) {l : List V} (h : l ≠ []) : ∃ v, fold1 merge l = some v := by
  cases l with
  | nil => exact absurd rfl h
  | cons v l => exact ⟨_, rfl⟩

include hassoc in
theorem foldl_merge_flatten (d : V) (h : ∀ l ∈ pieces, l ≠ []) (a : V) :
    (pieces.map fun l => (fold1 merge l).getD d).foldl merge a = pieces.flatten.foldl merge a := by
  induction pieces generalizing a with
  | nil => rfl
  | cons l pieces ih =>
    have : Std.Associative merge := ⟨hassoc⟩
    obtain ⟨v, vs, rfl⟩ := exists_cons_of_ne_nil (h l mem_cons_self)
    rw [map_cons, foldl_cons, ih fun l hl => h l (mem_cons_of_mem _ hl), flatten_cons,
      foldl_append, foldl_cons]
    have hpiece : vs.foldl merge (merge a v) = merge a (vs.foldl merge v) := foldl_assoc
    rw [hpiece]
    rfl

include hassoc in
/-- Merging the merges of the pieces is merging everything. -/
theorem fold1_flatten (d : V) (h : ∀ l ∈ pieces, l ≠ []) :
    fold1 merge (pieces.map fun l => (fold1 merge l).getD d) = fold1 merge pieces.flatten := by
  cases pieces with
  | nil => rfl
  | cons l pieces =>
    obtain ⟨v, vs, rfl⟩ := exists_cons_of_ne_nil (h l mem_cons_self)
    show some ((pieces.map fun l => (fold1 merge l).getD d).foldl merge (vs.foldl merge v)) =
      some ((vs ++ pieces.flatten).foldl merge v)
    rw [foldl_merge_flatten hassoc d (fun l hl => h l (mem_cons_of_mem _ hl)), foldl_append]

/-- The values of the next stage of the summary tree. -/
def nextValues (merge : V → V → V) (d : V) (fanIn : ℕ) (vals : List V) : List V :=
  (range (batchCount fanIn vals.length)).map fun b => (fold1 merge (batch fanIn vals b)).getD d

include hassoc in
theorem fold1_batches (d : V) {fanIn : ℕ} (hf : 0 < fanIn) (vals : List V) :
    fold1 merge (nextValues merge d fanIn vals) = fold1 merge vals := by
  have hpieces : ∀ l ∈ (range (batchCount fanIn vals.length)).map (batch fanIn vals), l ≠ [] := by
    intro l hl
    obtain ⟨b, hb, rfl⟩ := mem_map.mp hl
    exact batch_ne_nil hf (mem_range.mp hb)
  have h := fold1_flatten hassoc d hpieces
  rw [flatten_batches hf, map_map] at h
  exact h

end Folds

/-! ### The bodies -/

section Bodies

variable {val : Name → Option V} {out : Name}

/-- The objects `keys` stand for `vals`. -/
def Holds (val : Name → Option V) (keys : List Name) (vals : List V) : Prop :=
  Forall₂ (fun k v => val k = some v) keys vals

/-- Processing, finalizing and copying: one object in, one object out. -/
theorem follows_single {k : Name} {v : V} (f : V → V) (hk : val k = some v) (hout : val out = some (f v)) :
    (read k fun x => .write out (f x) .done).Follows val [k] ∧
      (read k fun x => .write out (f x) .done).outs val = [out] := by
  refine ⟨⟨mem_singleton_self k, v, hk, cons_ne_nil _ _, hout, trivial⟩, ?_⟩
  rw [outs, hk]
  rfl

theorem follows_merge {merge : V → V → V} {keys : List Name} {vals : List V} {merged : V}
    (hkeys : Holds val keys vals) (hmerged : fold1 merge vals = some merged) (hout : val out = some merged) :
    (readAll keys (mergeInto merge out)).Follows val keys ∧
      (readAll keys (mergeInto merge out)).outs val = [out] := by
  have hend : mergeInto merge out vals = .write out merged .done := by rw [mergeInto, hmerged]
  constructor
  · refine follows_readAll hkeys (fun k hk => hk) ?_ ?_
    · rw [hend]
      exact cons_ne_nil _ _
    · rw [hend]
      exact ⟨hout, trivial⟩
  · rw [outs_readAll hkeys, hend]
    rfl

end Bodies

/-! ### The summary tree -/

section Summary

variable {val : Name → Option V} {merge : V → V → V} {jobId : Text} {fanIn : ℕ} (d : V) {keys : List Name}

/-- What the stages write, with the values. -/
def stageEntries (jobId : Text) (merge : V → V → V) (d : V) (fanIn : ℕ) : ℕ → ℕ → List V → List (Name × V)
  | 0, _, _ => []
  | fuel + 1, stage, vals =>
    if 1 < vals.length then
      (range (batchCount fanIn vals.length)).map (fun b =>
        (mergeKey jobId stage b, (fold1 merge (batch fanIn vals b)).getD d)) ++
        stageEntries jobId merge d fanIn fuel (stage + 1) (nextValues merge d fanIn vals)
    else []

theorem summaryStages_of_le (fuel stage : ℕ) (h : keys.length ≤ 1) :
    summaryStages jobId merge fanIn fuel stage keys = ([], keys) := by
  cases fuel with
  | zero => rfl
  | succ fuel => rw [summaryStages, if_neg (by omega)]

variable {vals : List V}

theorem stageEntries_of_le (fuel stage : ℕ) (h : vals.length ≤ 1) :
    stageEntries jobId merge d fanIn fuel stage vals = [] := by
  cases fuel with
  | zero => rfl
  | succ fuel => rw [stageEntries, if_neg (by omega)]

def summaryValues (merge : V → V → V) (d : V) (fanIn : ℕ) : ℕ → List V → List V
  | 0, vals => vals
  | fuel + 1, vals =>
    if 1 < vals.length then summaryValues merge d fanIn fuel (nextValues merge d fanIn vals) else vals

theorem summaryValues_of_le (fuel : ℕ) (h : vals.length ≤ 1) :
    summaryValues merge d fanIn fuel vals = vals := by
  cases fuel with
  | zero => rfl
  | succ fuel => rw [summaryValues, if_neg (by omega)]

theorem length_nextValues (vals : List V) :
    (nextValues merge d fanIn vals).length = batchCount fanIn vals.length := by
  rw [nextValues, length_map, length_range]

/-- The stages come down to one value. -/
theorem exists_summaryValues (fuel : ℕ) (hne : vals ≠ []) (hfuel : vals.length ≤ fuel)
    (hfan : 1 < vals.length → 2 ≤ fanIn) : ∃ v, summaryValues merge d fanIn fuel vals = [v] := by
  induction fuel generalizing vals with
  | zero => exact absurd (length_eq_zero_iff.mp (le_zero.mp hfuel)) hne
  | succ fuel ih =>
    by_cases hmany : 1 < vals.length
    · have hf : 0 < fanIn := lt_of_lt_of_le zero_lt_two (hfan hmany)
      have hlt := batchCount_lt (hfan hmany) hmany
      have hpos := batchCount_pos hf (lt_of_succ_lt hmany)
      rw [summaryValues, if_pos hmany]
      refine ih ?_ ?_ fun _ => hfan hmany
      · apply ne_nil_of_length_pos
        rwa [length_nextValues]
      · rw [length_nextValues]
        omega
    · have hone : vals.length = 1 := by
        have := length_pos_iff.mpr hne
        omega
      rw [summaryValues_of_le d _ (by omega)]
      exact length_eq_one_iff.mp hone

/-- No stage changes the fold. -/
theorem fold1_summaryValues (hassoc : ∀ a b c, merge (merge a b) c = merge a (merge b c)) (hf : 0 < fanIn)
    (fuel : ℕ) (vals : List V) : fold1 merge (summaryValues merge d fanIn fuel vals) = fold1 merge vals := by
  induction fuel generalizing vals with
  | zero => rfl
  | succ fuel ih =>
    rw [summaryValues]
    split
    · rw [ih, fold1_batches hassoc d hf]
    · rfl

/-- What the tasks of the stages do with the objects `keys`. -/
theorem stages_summaryStages (hf : 0 < fanIn) (fuel stage : ℕ) (hholds : Holds val keys vals)
    (hentries : ∀ e ∈ stageEntries jobId merge d fanIn fuel stage vals, val e.1 = some e.2) :
    Stages val keys ((stageEntries jobId merge d fanIn fuel stage vals).map Prod.fst)
        (summaryStages jobId merge fanIn fuel stage keys).2
          (summaryStages jobId merge fanIn fuel stage keys).1 ∧
      Holds val (summaryStages jobId merge fanIn fuel stage keys).2
        (summaryValues merge d fanIn fuel vals) := by
  have hlength : keys.length = vals.length := hholds.length_eq
  induction fuel generalizing stage keys vals with
  | zero => exact ⟨.refl keys, hholds⟩
  | succ fuel ih =>
    by_cases hmany : 1 < keys.length
    · rw [stageEntries, if_pos (hlength ▸ hmany), ← hlength] at hentries ⊢
      rw [forall_mem_append] at hentries
      rw [summaryStages, if_pos hmany, summaryValues, if_pos (hlength ▸ hmany), map_append, map_map]
      have hvalue : ∀ b ∈ range (batchCount fanIn keys.length),
          val (mergeKey jobId stage b) = some ((fold1 merge (batch fanIn vals b)).getD d) :=
        fun b hb => hentries.1 _ (mem_map_of_mem hb)
      -- the objects of the next stage
      have hnext : Holds val ((range (batchCount fanIn keys.length)).map (mergeKey jobId stage))
          (nextValues merge d fanIn vals) := by
        rw [nextValues, ← hlength, Holds, forall₂_map_left_iff, forall₂_map_right_iff, forall₂_same]
        exact hvalue
      obtain ⟨hrest, hlast⟩ := ih (stage + 1) hnext hentries.2 hnext.length_eq
      refine ⟨.trans (.level (.map fun b hb => ?_) (fun t ht k hk => ?_) fun k hk => ?_) hrest, hlast⟩
      · obtain ⟨v, hv⟩ := fold1_isSome merge (batch_ne_nil hf (l := vals) (hlength ▸ mem_range.mp hb))
        refine follows_merge (forall₂_take fanIn (forall₂_drop (b * fanIn) hholds)) hv ?_
        rw [hvalue b hb, hv]
        rfl
      · obtain ⟨b, _, rfl⟩ := mem_map.mp ht
        exact mem_of_mem_drop (mem_of_mem_take hk)
      · obtain ⟨b, hb, hkb⟩ := mem_batch_of_mem hf hk
        exact ⟨_, mem_map_of_mem (mem_range.mpr hb), hkb⟩
    · rw [stageEntries_of_le d _ _ (by omega), summaryStages_of_le _ _ (by omega),
        summaryValues_of_le d _ (by omega)]
      exact ⟨.refl keys, hholds⟩

end Summary

end Fly.MapReduce
