import Mathlib.Algebra.Ring.Nat
import Mathlib.Data.List.Nodup
import Mathlib.Data.List.Perm.Subperm

/-!
# Task ids drawn on the master (`remote_task_counter_` in `agent/cpp/master_agent.cpp`)

One atomic 64-bit counter serves three call sites.  The handler of `TaskSubmitMessage` takes the value
*after* its increment (`++counter`); `on_backup_request` and `send_merge_task` take the value *before* it
(`fetch_add(1)`).  Each draw is one atomic operation, so any interleaving is a sequence of draws.

* `drawnIds` — the ids a sequence of draws yields;
* `drawnIds_nodup_iff` — **the ids are pairwise distinct exactly if no submission comes before a backup
  or merge draw** (and the 64-bit counter does not come round to its start).
-/

namespace Fly.Agent

open List Nat UInt64

/-- The call sites that draw an id. -/
inductive DrawSite where
  | taskSubmit
  | backupRequest
  | mergeTask
  deriving DecidableEq, Repr

/-- One draw: the id, and the counter afterwards. -/
def DrawSite.draw (counter : UInt64) : DrawSite → UInt64 × UInt64
  | taskSubmit => (counter + 1, counter + 1)
  | backupRequest | mergeTask => (counter, counter + 1)

/-- The ids of a sequence of draws. -/
def drawnIds : UInt64 → List DrawSite → List UInt64
  | _, [] => []
  | counter, site :: rest => (site.draw counter).1 :: drawnIds (site.draw counter).2 rest

def initialTaskCounter : UInt64 := 100000

/-! ### Closed forms -/

theorem draw_counter (counter : UInt64) (site : DrawSite) : (site.draw counter).2 = counter + 1 := by
  cases site <;> rfl

theorem draw_of_ne_submit {site : DrawSite} (h : site ≠ .taskSubmit) (counter : UInt64) :
    (site.draw counter).1 = counter := by
  cases site with
  | taskSubmit => exact absurd rfl h
  | backupRequest => rfl
  | mergeTask => rfl

theorem add_ofNat_succ (c : UInt64) (n : ℕ) : c + .ofNat (n + 1) = c + 1 + .ofNat n := by
  rw [UInt64.ofNat_add, UInt64.add_comm (UInt64.ofNat n), ← UInt64.add_assoc]
  rfl

/-- Adding distinct offsets gives distinct ids until the counter comes round. -/
theorem add_ofNat_inj (c : UInt64) {m n : ℕ} : c + .ofNat m = c + .ofNat n ↔ m % 2 ^ 64 = n % 2 ^ 64 := by
  rw [UInt64.add_right_inj, ← UInt64.toNat_inj, UInt64.toNat_ofNat', UInt64.toNat_ofNat']

theorem length_drawnIds (c : UInt64) (sites : List DrawSite) :
    (drawnIds c sites).length = sites.length := by
  induction sites generalizing c with
  | nil => rfl
  | cons site rest ih => rw [drawnIds, length_cons, ih, length_cons]

theorem drawnIds_append (c : UInt64) (as bs : List DrawSite) :
    drawnIds c (as ++ bs) = drawnIds c as ++ drawnIds (c + ofNat as.length) bs := by
  induction as generalizing c with
  | nil => simp [drawnIds]
  | cons a as ih =>
    rw [cons_append, drawnIds, ih, draw_counter, drawnIds, draw_counter, length_cons,
      add_ofNat_succ, cons_append]

variable {sites : List DrawSite}

theorem drawnIds_of_draw {k : ℕ} (c : UInt64) (h : ∀ site ∈ sites, ∀ c, (site.draw c).1 = c + ofNat k) :
    drawnIds c sites = (range' k sites.length).map fun i => c + ofNat i := by
  induction sites generalizing c with
  | nil => rfl
  | cons site rest ih =>
    have hrest := ih (c + 1) fun s hs => h s (mem_cons_of_mem site hs)
    rw [drawnIds, h site mem_cons_self, draw_counter, hrest, length_cons, range'_succ, map_cons,
      range'_eq_map_range, range'_eq_map_range, map_map, map_map]
    congr 1
    refine map_congr_left fun i _ => ?_
    have hi : k + 1 + i = (k + i) + 1 := by omega
    simp only [Function.comp, hi, add_ofNat_succ]

/-! ### Distinct ids -/

/-- Every backup or merge draw comes before every submission, and the draws do not exhaust the counter:
at most `2 ^ 64` of them, and of one kind only if there are exactly that many. -/
def OrderedDraws (sites : List DrawSite) : Prop :=
  ∃ internal submits, sites = internal ++ submits ∧
    (∀ site ∈ internal, site ≠ .taskSubmit) ∧ (∀ site ∈ submits, site = .taskSubmit) ∧
    sites.length ≤ 2 ^ 64 ∧ (sites.length = 2 ^ 64 → internal = [] ∨ submits = [])

theorem OrderedDraws.nodup (h : OrderedDraws sites) (c : UInt64) : (drawnIds c sites).Nodup := by
  obtain ⟨internal, submits, rfl, hint, hsub, hlen, hfull⟩ := h
  rw [length_append] at hlen hfull
  -- all offsets from the start value, in the order of the draws
  have hids : drawnIds c (internal ++ submits) =
      (List.range' 0 internal.length ++ List.range' (internal.length + 1) submits.length).map
        fun i => c + UInt64.ofNat i := by
    have hfirst := drawnIds_of_draw (k := 0) c fun site hs c =>
      (draw_of_ne_submit (hint site hs) c).trans (UInt64.add_zero c).symm
    have hlast := drawnIds_of_draw (k := 1) (c + ofNat internal.length) fun site hs c => by
      rw [hsub site hs]
      rfl
    rw [drawnIds_append, hfirst, hlast, map_append]
    congr 1
    rw [List.range'_eq_map_range, List.range'_eq_map_range, map_map, map_map]
    refine map_congr_left fun i _ => ?_
    have hi : internal.length + 1 + i = internal.length + (1 + i) := by omega
    simp only [Function.comp, hi, UInt64.ofNat_add, UInt64.add_assoc]
  rw [hids]
  refine List.Nodup.map_on ?_ ?_
  · intro i hi j hj heq
    rw [add_ofNat_inj] at heq
    simp only [mem_append, mem_range'_1] at hi hj
    by_cases hcount : internal.length + submits.length = 2 ^ 64
    · rcases hfull hcount with rfl | rfl
      all_goals
        simp only [length_nil] at hi hj hcount
        omega
    · omega
  · refine nodup_append.mpr ⟨nodup_range', nodup_range', ?_⟩
    intro i hi j hj
    simp only [mem_range'_1] at hi hj
    omega

/-- Without such a pair the draws split into internal ones followed by submissions. -/
theorem exists_split_of_not_adjacent (sites : List DrawSite)
    (h : ∀ pre site post, sites = pre ++ .taskSubmit :: site :: post → site = .taskSubmit) :
    ∃ internal submits, sites = internal ++ submits ∧
      (∀ site ∈ internal, site ≠ .taskSubmit) ∧ (∀ site ∈ submits, site = .taskSubmit) := by
  induction sites with
  | nil => exact ⟨[], [], rfl, by simp, by simp⟩
  | cons site rest ih =>
    obtain ⟨internal, submits, rfl, hint, hsub⟩ := ih fun pre s post heq =>
      h (site :: pre) s post (by rw [heq, cons_append])
    by_cases hsite : site = .taskSubmit
    · subst hsite
      cases internal with
      | nil =>
        refine ⟨[], .taskSubmit :: submits, rfl, by simp, ?_⟩
        simpa using hsub
      | cons first internal =>
        -- the first internal draw would follow the submission directly
        have hfirst := h [] first (internal ++ submits) rfl
        exact absurd hfirst (hint first mem_cons_self)
    · refine ⟨site :: internal, submits, rfl, ?_, hsub⟩
      simpa [hsite] using hint

theorem length_le_of_nodup {ids : List UInt64} (h : ids.Nodup) : ids.length ≤ 2 ^ 64 := by
  have hnodup : (ids.map UInt64.toNat).Nodup := h.map fun a b hab => UInt64.toNat_inj.mp hab
  have hsub : ids.map toNat ⊆ range (2 ^ 64) := by
    intro n hn
    obtain ⟨id, -, rfl⟩ := mem_map.mp hn
    exact mem_range.mpr id.toNat_lt
  have hle := (hnodup.subperm hsub).length_le
  rwa [length_map, length_range] at hle

/-- A full round of the counter that starts with an internal draw and ends with a submission returns
to its first id. -/
theorem not_nodup_of_full_round (c : UInt64) (first : DrawSite) (mid : List DrawSite)
    (hfirst : first ≠ .taskSubmit) (hlen : mid.length + 2 = 2 ^ 64) :
    ¬(drawnIds c (first :: mid ++ [.taskSubmit])).Nodup := by
  intro hnodup
  rw [drawnIds_append, drawnIds, draw_of_ne_submit hfirst, cons_append] at hnodup
  refine (nodup_cons.mp hnodup).1 (mem_append_right _ ?_)
  have hround : c + ofNat (first :: mid).length + 1 = c := by
    have hone : (1 : UInt64) = ofNat 1 := rfl
    rw [UInt64.add_assoc, hone, ← UInt64.ofNat_add, length_cons]
    have hsum : mid.length + 1 + 1 = 2 ^ 64 := hlen
    rw [hsum]
    have hzero := (add_ofNat_inj c (m := 2 ^ 64) (n := 0)).mpr ((mod_self _).trans (zero_mod _).symm)
    rw [hzero]
    exact UInt64.add_zero c
  rw [drawnIds, drawnIds, DrawSite.draw, hround]
  exact mem_singleton_self c

/-- **Task ids are distinct exactly for ordered draws**, from the initial value of the counter. -/
theorem drawnIds_nodup_iff (sites : List DrawSite) :
    (drawnIds initialTaskCounter sites).Nodup ↔ OrderedDraws sites := by
  refine ⟨fun hnodup => ?_, fun h => h.nodup initialTaskCounter⟩
  have hlen : sites.length ≤ 2 ^ 64 := by
    have := length_le_of_nodup hnodup
    rwa [length_drawnIds] at this
  have hadjacent : ∀ pre site post, sites = pre ++ .taskSubmit :: site :: post → site = .taskSubmit := by
    intro pre site post heq
    by_contra hne
    -- the draw behind a submission yields the same id again
    rw [heq, drawnIds_append, drawnIds, drawnIds, draw_of_ne_submit hne] at hnodup
    have htail := (nodup_append.mp hnodup).2.1
    exact (nodup_cons.mp htail).1 mem_cons_self
  obtain ⟨internal, submits, rfl, hint, hsub⟩ := exists_split_of_not_adjacent sites hadjacent
  refine ⟨internal, submits, rfl, hint, hsub, hlen, fun hfull => ?_⟩
  by_contra hboth
  rw [not_or] at hboth
  obtain ⟨first, internal, rfl⟩ := exists_cons_of_ne_nil hboth.1
  rcases eq_nil_or_concat submits with hnil | ⟨submits, last, rfl⟩
  · exact hboth.2 hnil
  have hlast : last = .taskSubmit := hsub last (by simp)
  subst hlast
  have hshape : first :: internal ++ submits.concat .taskSubmit =
      first :: (internal ++ submits) ++ [.taskSubmit] := by simp
  rw [hshape] at hnodup hfull
  refine not_nodup_of_full_round initialTaskCounter first (internal ++ submits)
    (hint first mem_cons_self) ?_ hnodup
  simp only [length_append, length_cons, length_nil] at hfull ⊢
  omega

/-- A submission and a backup right after it share an id. -/
theorem drawnIds_collision : drawnIds initialTaskCounter [.taskSubmit, .backupRequest] = [100001, 100001] ∧
      ¬(drawnIds initialTaskCounter [.taskSubmit, .backupRequest]).Nodup := by
  decide

end Fly.Agent
