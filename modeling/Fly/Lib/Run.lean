import Mathlib.Data.List.Induction

/-!
# Runs of a partial transition function

A component is a state type `σ`, an operation type `α` and a partial step `σ → α → Option σ`; `none`
stands for a step after which there is no state any more (a failed assertion).  `run step s ops` is
the state after the operations `ops`, from `s`.

* `run_append` — runs compose.
* `run_invariant` — the induction rule: what every step preserves, every run preserves.
* `run_accumulates` — what a run adds, its operations add one by one.
* `exists_run_of_progress` — a measure that every step lowers, until the goal is reached.
* `run_history` — the same with the operations performed so far as a parameter of the invariant, for
  properties that compare the state with its past; `run_safe` — for steps that meet a condition.
* `run_related` — the relational rule for two runs over the same operations.
* `run_good_iff_safe` — when a step leaves the state good exactly if it is safe: the state is good after
  a run exactly if every step of it was safe.
* `run_checked_iff_safe` — the same where the state is only looked at after some of the steps, and what
  holds in between depends on what was seen so far.
* `safe_of_checks` — for a given run a condition on all its steps can be evaluated.
* `foldl_good_iff_safe` — for steps that cannot fail: from a local equivalence between *safe step* and
  *good state* to the equivalence over whole runs.
-/

namespace Fly.Lib

open List Option

variable {σ α : Type*}

/-- The state after performing `ops` from `s`, if no step fails. -/
def run (step : σ → α → Option σ) : σ → List α → Option σ
  | s, [] => some s
  | s, a :: as => (step s a).bind fun s' => run step s' as

@[simp] theorem run_nil (step : σ → α → Option σ) (s : σ) : run step s [] = some s := rfl

theorem run_cons (step : σ → α → Option σ) (s : σ) (a : α) (as : List α) :
    run step s (a :: as) = (step s a).bind fun s' => run step s' as := rfl

variable {step : σ → α → Option σ} {s : σ} {as pre post : List α} {I : σ → Prop} {s₀ s' : σ}
  {Good p : σ → Prop} {Safe : σ → α → Prop} {a : α} {o : Option σ}

theorem run_cons_of_step (h : step s a = some s') (as : List α) : run step s (a :: as) = run step s' as := by
  rw [run_cons, h, bind_some]

theorem run_append (step : σ → α → Option σ) (s : σ) (as bs : List α) :
    run step s (as ++ bs) = (run step s as).bind fun s' => run step s' bs := by
  induction as generalizing s with
  | nil => rfl
  | cons a as ih =>
    rw [cons_append, run_cons, run_cons]
    cases step s a with
    | none => rfl
    | some s' => simpa using ih s'

theorem run_append_of_run
    (h : run step s as = some s') (bs : List α) : run step s (as ++ bs) = run step s' bs := by
  rw [run_append, h, bind_some]

theorem run_concat :
    run step s (as ++ [a]) = some s' ↔ ∃ t, run step s as = some t ∧ step t a = some s' := by
  simp [run_append, run_cons, bind_eq_some_iff]

/-- The states before and after an operation of a run. -/
theorem run_append_cons : run step s (pre ++ a :: post) = some s' ↔
    ∃ t u, run step s pre = some t ∧ step t a = some u ∧ run step u post = some s' := by
  simp [run_append, run_cons, bind_eq_some_iff]

/-- **Invariant rule.**  A predicate preserved by every operation of the run is preserved by the run. -/
theorem run_invariant (hstep : ∀ a ∈ as, ∀ s s', I s → step s a = some s' → I s')
    (hs : I s) (h : run step s as = some s') : I s' := by
  induction as generalizing s with
  | nil =>
    rw [run_nil, some.injEq] at h
    exact h ▸ hs
  | cons a as ih =>
    obtain ⟨u, hu, h⟩ := bind_eq_some_iff.mp h
    refine ih (fun b hb => hstep b (mem_cons_of_mem a hb)) ?_ h
    exact hstep a mem_cons_self s u hs hu

/-- **Accumulating runs.**  What every operation adds to, a run adds to by one of its operations. -/
theorem run_accumulates {Q : α → Prop} (hstep : ∀ s a s', step s a = some s' → (p s' ↔ p s ∨ Q a))
    (h : run step s as = some s') : p s' ↔ p s ∨ ∃ a ∈ as, Q a := by
  induction as generalizing s with
  | nil =>
    cases h
    simp
  | cons a as ih =>
    obtain ⟨u, hu, h⟩ := bind_eq_some_iff.mp h
    simp only [ih h, hstep s a u hu, mem_cons, exists_eq_or_imp]
    exact or_assoc

/-- What a given run comes to can be evaluated. -/
theorem exists_of_decide [DecidablePred p]
    (h : o.any (fun s => decide (p s)) = true) : ∃ s, o = some s ∧ p s := by
  obtain ⟨s, hs, hp⟩ := (any_eq_true _ _).mp h
  exact ⟨s, hs, of_decide_eq_true hp⟩

theorem exists_and_of_decide {q : σ → Prop} [DecidablePred p]
    (h : o.any (fun s => decide (p s)) = true) (hq : ∀ s, o = some s → p s → q s) :
    ∃ s, o = some s ∧ p s ∧ q s := by
  obtain ⟨s, hs, hp⟩ := exists_of_decide h
  exact ⟨s, hs, hp, hq s hs hp⟩

/-- **Progress rule.**  If a state that has not reached the goal can always go on and every step lowers a
measure, then a run reaches the goal. -/
theorem exists_run_of_progress {G : σ → Prop} (μ : σ → ℕ)
    (hstep : ∀ s, I s → ¬ G s → ∃ a s', step s a = some s' ∧ I s' ∧ μ s' < μ s) (hs : I s) :
    ∃ as s', run step s as = some s' ∧ I s' ∧ G s' := by
  induction hn : μ s using Nat.strongRecOn generalizing s with
  | _ n ih =>
    by_cases hg : G s
    · exact ⟨[], s, rfl, hs, hg⟩
    · obtain ⟨a, s', hstep, hs', hlt⟩ := hstep s hs hg
      obtain ⟨as, t, hrun, ht, hgt⟩ := ih (μ s') (hn ▸ hlt) hs' rfl
      exact ⟨a :: as, t, by rw [run_cons_of_step hstep]; exact hrun, ht, hgt⟩

/-- **History rule.**  The invariant may mention the operations performed so far; the step obligation
is for operations that really occur in the run, in the state that the operations before them lead to. -/
theorem run_history {I : List α → σ → Prop} (h₀ : I [] s₀)
    (hstep : ∀ hist a rest s s', as = hist ++ a :: rest → run step s₀ hist = some s → I hist s →
      step s a = some s' → I (hist ++ [a]) s')
    (h : run step s₀ as = some s) : I as s := by
  induction as using reverseRecOn generalizing s with
  | nil =>
    rw [run_nil, some.injEq] at h
    exact h ▸ h₀
  | append_singleton as a ih =>
    obtain ⟨u, hu, hv⟩ := run_concat.mp h
    refine hstep as a [] u s rfl hu (ih (fun hist b rest t t' hsplit => ?_) hu) hv
    exact hstep hist b (rest ++ [a]) t t' (by rw [hsplit]; simp)

/-- **Safe runs.**  What every safe step keeps holds after a run of safe steps. -/
theorem run_safe (hstep : ∀ s a s', I s → Safe s a → step s a = some s' → I s') (h₀ : I s₀)
    (hsafe : ∀ pre a post t, as = pre ++ a :: post → run step s₀ pre = some t → Safe t a)
    (h : run step s₀ as = some s) : I s := by
  refine run_history (I := fun _ => I) h₀ (fun hist a rest t t' hsplit hreached ht => ?_) h
  exact hstep t a t' ht (hsafe hist a rest t hsplit hreached)

/-- **Two runs over the same operations.**  A relation kept by every common step relates the ends. -/
theorem run_related {τ : Type*} {step' : τ → α → Option τ} {R : σ → τ → Prop}
    (hstep : ∀ s t a s' t', R s t → step s a = some s' → step' t a = some t' → R s' t')
    {t t' : τ} (hR : R s t) (hs : run step s as = some s')
    (ht : run step' t as = some t') : R s' t' := by
  induction as generalizing s t with
  | nil =>
    rw [run_nil, some.injEq] at hs ht
    exact hs ▸ ht ▸ hR
  | cons a as ih =>
    obtain ⟨u, hu, hs⟩ := bind_eq_some_iff.mp hs
    obtain ⟨v, hv, ht⟩ := bind_eq_some_iff.mp ht
    exact ih (hstep s t a u v hR hu hv) hs ht

/-- Where an element stands in a list with one more at its end. -/
theorem concat_eq_append_cons_iff {b : α} : as ++ [a] = pre ++ b :: post ↔
      (pre = as ∧ b = a ∧ post = []) ∨ ∃ post', post = post' ++ [a] ∧ as = pre ++ b :: post' := by
  constructor
  · intro h
    rcases eq_nil_or_concat post with rfl | ⟨post', c, rfl⟩
    · obtain ⟨rfl, hb⟩ := append_inj' h rfl
      exact .inl ⟨rfl, (singleton_inj.mp hb).symm, rfl⟩
    · rw [concat_eq_append, ← cons_append, ← append_assoc] at h
      obtain ⟨has, hc⟩ := append_inj' h rfl
      exact .inr ⟨post', by rw [concat_eq_append, hc], has⟩
  · rintro (⟨rfl, rfl, rfl⟩ | ⟨post', rfl, rfl⟩)
    · rfl
    · simp

/-- What holds of every occurrence of an operation in a run holds of the first operation and of every
occurrence in the rest. -/
theorem forall_split_cons_iff {P : List α → α → Prop} {b : α} :
    (∀ pre a post, b :: as = pre ++ a :: post → P pre a) ↔
      P [] b ∧ ∀ pre a post, as = pre ++ a :: post → P (b :: pre) a := by
  constructor
  · intro h
    exact ⟨h [] b as rfl, fun pre a post hsplit => h (b :: pre) a post (by rw [hsplit]; rfl)⟩
  · rintro ⟨hfirst, hrest⟩ pre a post hsplit
    cases pre with
    | nil =>
      obtain ⟨rfl, -⟩ := cons.inj hsplit
      exact hfirst
    | cons c pre =>
      obtain ⟨rfl, htail⟩ := cons.inj hsplit
      exact hrest pre a post htail

/-- **Good ends.**  If a step leaves a good state exactly when the state before was good and the step is
safe, then a run leaves a good state exactly when all its steps are safe. -/
theorem run_good_iff_safe (hstep : ∀ s a s', step s a = some s' → (Good s' ↔ Good s ∧ Safe s a))
    (hgood₀ : Good s₀) (h : run step s₀ as = some s) :
    Good s ↔ ∀ pre a post t, as = pre ++ a :: post → run step s₀ pre = some t → Safe t a := by
  suffices hsafe : Good s ↔ Good s₀ ∧
      ∀ pre a post, as = pre ++ a :: post → ∀ t, run step s₀ pre = some t → Safe t a by
    rw [hsafe, and_iff_right hgood₀]
    exact ⟨fun h pre a post t hsplit => h pre a post hsplit t,
      fun h pre a post hsplit t => h pre a post t hsplit⟩
  clear hgood₀
  induction as generalizing s₀ with
  | nil =>
    cases h
    simp
  | cons b as ih =>
    obtain ⟨u, hu, h⟩ := bind_eq_some_iff.mp h
    rw [ih h, hstep s₀ b u hu, forall_split_cons_iff, and_assoc]
    simp only [run_cons_of_step hu, run_nil, some.injEq, forall_eq']

/-- **Checkpoints.**  The state is looked at after the operations with `Check`.  If the invariant, which
such an operation keeps as long as it leaves a good state, makes *good* and *safe* the same, then all
checkpoints of a run are good exactly when all its checked operations are safe. -/
theorem run_checked_iff_safe {Check : α → Prop}
    (hfree : ∀ s a s', ¬Check a → I s → step s a = some s' → I s')
    (hcheck : ∀ s a s', Check a → I s → step s a = some s' → (Good s' ↔ Safe s a) ∧ (Good s' → I s'))
    (h₀ : I s₀) (h : run step s₀ as = some s) :
    (∀ pre a post, as = pre ++ a :: post → Check a → ∀ t, run step s₀ (pre ++ [a]) = some t → Good t) ↔
    ∀ pre a post, as = pre ++ a :: post → Check a → ∀ t, run step s₀ pre = some t → Safe t a := by
  induction as generalizing s₀ with
  | nil => exact iff_of_true (fun _ _ _ h => absurd h (by simp)) (fun _ _ _ h => absurd h (by simp))
  | cons b as ih =>
    obtain ⟨u, hu, h⟩ := bind_eq_some_iff.mp h
    rw [forall_split_cons_iff, forall_split_cons_iff]
    simp only [nil_append, cons_append, run_cons_of_step hu, run_nil, some.injEq, forall_eq']
    by_cases hb : Check b
    · obtain ⟨hiff, hkeep⟩ := hcheck s₀ b u hb h₀ hu
      simp only [hb, forall_const, ← hiff]
      exact and_congr_right fun hgood => ih (hkeep hgood) h
    · simp only [hb, false_implies, true_and]
      exact ih (hfree s₀ b u hb h₀ hu) h

/-- Evaluate a condition at every step of a run. -/
def checks (step : σ → α → Option σ) (b : σ → α → Bool) : σ → List α → Bool
  | _, [] => true
  | s, a :: as => b s a && (step s a).all fun s' => checks step b s' as

/-- For a given run a condition on all its steps can be evaluated. -/
theorem safe_of_checks {b : σ → α → Bool}
    (h : checks step b s as = true) {t : σ} (hsplit : as = pre ++ a :: post)
    (ht : run step s pre = some t) : b t a = true := by
  induction pre generalizing s as with
  | nil =>
    rw [run_nil, some.injEq] at ht
    subst hsplit ht
    exact (Bool.and_eq_true_iff.mp h).1
  | cons c pre ih =>
    subst hsplit
    obtain ⟨u, hu, ht⟩ := bind_eq_some_iff.mp ht
    have hrest := (Bool.and_eq_true_iff.mp h).2
    rw [hu, all_some] at hrest
    exact ih hrest rfl ht

/-! ### Steps that cannot fail -/

/-- **Good runs.**  If a step from a good state leads to a good state exactly when it is safe, then all
prefixes of a run are good exactly when all its steps are safe.  `I` is what holds regardless. -/
theorem foldl_good_iff_safe {step : σ → α → σ}
    (hinv : ∀ pre, pre <+: as → I (pre.foldl step s₀)) (hgood₀ : Good s₀)
    (hstep : ∀ s a, I s → I (step s a) → Good s → (Good (step s a) ↔ Safe s a)) :
    (∀ pre, pre <+: as → Good (pre.foldl step s₀)) ↔
      ∀ pre a post, as = pre ++ a :: post → Safe (pre.foldl step s₀) a := by
  have hfronts : ∀ {b : α} {as : List α} (P : List α → Prop), (∀ pre, pre <+: b :: as → P pre) ↔
      P [] ∧ ∀ pre, pre <+: as → P (b :: pre) := by
    intro b as P
    simp only [prefix_cons_iff, or_imp, forall_and, forall_eq]
    exact and_congr_right
      fun _ => ⟨fun h pre hpre => h _ ⟨pre, rfl, hpre⟩, fun h _ ⟨pre, heq, hpre⟩ => heq ▸ h pre hpre⟩
  induction as generalizing s₀ with
  | nil => simp [hgood₀]
  | cons b as ih =>
    rw [hfronts] at hinv
    rw [hfronts, forall_split_cons_iff]
    have hnow := hstep s₀ b hinv.1 (hinv.2 [] nil_prefix) hgood₀
    by_cases hsafe : Safe s₀ b
    · exact and_congr (iff_of_true hgood₀ hsafe) (ih hinv.2 (hnow.mpr hsafe))
    · exact iff_of_false (fun h => hsafe (hnow.mp (h.2 [] nil_prefix))) fun h => hsafe h.1

end Fly.Lib
