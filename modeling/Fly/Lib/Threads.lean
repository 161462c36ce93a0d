import Fly.Lib.Run
import Mathlib.Algebra.BigOperators.Group.List.Basic
import Mathlib.Tactic.Ring

/-!
# Threads over a shared state with one mutex

A thread is a list of instructions.  Executing the first one changes the shared state and puts further
instructions in front of the rest, so that a call, a loop or a branch of the source is an instruction
that unfolds when it is reached.  Threads interleave between any two instructions.

There is one mutex.  An instruction is *free*, or it takes the mutex and gives it back within its own
step, or it *enters* a section: the thread then holds the mutex over several steps, and the state of the
section says where it is.  What the outside supplies at a step (a clock, a configuration switch, an
answer from the network) is an argument of the step.

* `Threaded` — the programs, and what their instructions do; `World` — the state of all threads;
* `Threaded.step` — one action: a new thread starts, or a thread goes on;
* `Threaded.step_cases` — everything an action can do;
* `Threaded.invariant` — **the rule for invariants of the shared state and the open section**, over
  runs all of whose actions meet a condition;
* `Threaded.meets_of_check` — for a given run the condition can be evaluated;
* `World.All`, `World.Has`, `World.weigh` — properties of, and a sum over, the instructions still to be
  executed;
* `Threaded.plain` — threads that never hold the mutex over several steps; `plain_step_cases` and
  `plain_run_history` — their inversion lemma and induction rule; `plain_always_iff` — conditions that
  are necessary and sufficient;
* `Solo`, `Threaded.soloStep` — one thread while the others stand still; `trace` — what it does;
  `run_withThread` — such a run is a run of all threads.
-/

namespace Fly.Lib

open List Option

/-- The result of an instruction: a new shared state and what the thread does before the rest, or a
section entered with the mutex. -/
inductive Outcome (σ ι κ : Type*) where
  | done (s : σ) (todo : List ι)
  | enter (c : κ)

/-- Programs `γ` made of instructions `ι` over the shared state `σ`, with sections `κ` and outside
answers `ε`; `inside` is one step of a section, which ends with `none`. -/
structure Threaded (σ ι κ ε γ : Type*) where
  program : γ → List ι
  exec : ε → σ → ι → Option (Outcome σ ι κ)
  free : ι → Bool
  inside : ε → σ → κ → Option (σ × Option κ)

/-- The shared state, the thread that holds the mutex with the state of its section, and what every
thread still has to do. -/
structure World (σ ι κ : Type*) where
  shared : σ
  holder : Option (ℕ × κ) := none
  threads : List (List ι) := []

inductive Action (ε γ : Type*) where
  | call (g : γ)
  | step (i : ℕ) (e : ε)

variable {σ ι κ ε γ : Type*} {a : Action ε γ}

namespace World

variable (w : World σ ι κ) (i : ℕ)

/-- Thread `i` goes on with `ops`, and the shared state is `s`. -/
abbrev proceed (s : σ) (ops : List ι) : World σ ι κ :=
  { w with shared := s, threads := w.threads.set i ops }

def section? : Option κ := w.holder.map Prod.snd

/-- What thread `i` does next: a step of its section, or its first instruction. -/
def next : Option (ι ⊕ κ) :=
  match w.holder with
  | some (j, c) =>
    if j = i then some (.inr c) else (w.threads[i]?.bind head?).map .inl
  | none => (w.threads[i]?.bind head?).map .inl

variable {w i}

theorem next_of_ne (h : ∀ c, w.holder ≠ some (i, c)) :
    w.next i = (w.threads[i]?.bind head?).map .inl := by
  unfold next
  split
  case h_1 j c hh =>
    have hne : j ≠ i := by
      rintro rfl
      exact h c hh
    rw [if_neg hne]
  case h_2 => rfl

theorem section?_of_next {c : κ} (h : w.next i = some (.inr c)) : w.section? = some c := by
  by_cases hi : ∃ c', w.holder = some (i, c')
  · obtain ⟨c', hh⟩ := hi
    rw [next, hh] at h
    rw [section?, hh]
    simpa using h
  · rw [next_of_ne fun c' hh => hi ⟨c', hh⟩] at h
    obtain ⟨op, -, hop⟩ := map_eq_some_iff.mp h
    cases hop

theorem thread_of_next {op : ι} (h : w.next i = some (.inl op)) :
    ∃ thread ∈ w.threads, op ∈ thread := by
  by_cases hi : ∃ c', w.holder = some (i, c')
  · obtain ⟨c', hh⟩ := hi
    rw [next, hh] at h
    simp at h
  · rw [next_of_ne fun c' hh => hi ⟨c', hh⟩] at h
    obtain ⟨op', hop', heq⟩ := map_eq_some_iff.mp h
    cases heq
    obtain ⟨thread, hthread, hop⟩ := bind_eq_some_iff.mp hop'
    exact ⟨thread, mem_of_getElem? hthread, mem_of_head? hop⟩

end World

namespace Threaded

variable (P : Threaded σ ι κ ε γ)

/-- The first instruction of thread `i`, for a thread that does not hold the mutex. -/
def stepThread (w : World σ ι κ) (i : ℕ) (e : ε) : Option (World σ ι κ) :=
  match w.threads[i]? with
  | some (op :: rest) =>
    if P.free op || w.holder.isNone then
      match P.exec e w.shared op with
      | some (.done s todo) =>
        some { w with shared := s, threads := w.threads.set i (todo ++ rest) }
      | some (.enter c) =>
        if w.holder.isNone then
          some { w with holder := some (i, c), threads := w.threads.set i rest }
        else none
      | none => none
    else none
  | _ => none

/-- One action; `none` if it cannot be taken, or ends in a failed assertion. -/
def step (w : World σ ι κ) : Action ε γ → Option (World σ ι κ)
  | .call g => some { w with threads := w.threads ++ [P.program g] }
  | .step i e =>
    match w.holder with
    | some (j, c) =>
      if j = i then
        (P.inside e w.shared c).map fun r =>
          { w with shared := r.1, holder := r.2.map fun c' => (i, c') }
      else P.stepThread w i e
    | none => P.stepThread w i e

/-- Every action of the run meets the condition, in the state in which it is taken. -/
def Meets (C : World σ ι κ → ε → ι ⊕ κ → Prop) (w₀ : World σ ι κ) (as : List (Action ε γ)) : Prop :=
  ∀ pre i e post w x, as = pre ++ .step i e :: post → run P.step w₀ pre = some w →
    w.next i = some x → C w e x

/-! ### What an action can do -/

variable {P} {w w' : World σ ι κ}

/-- Thread `i` executes its first instruction. -/
structure Executes (P : Threaded σ ι κ ε γ) (w : World σ ι κ) (i : ℕ) (op : ι) (rest : List ι) : Prop where
  next : w.next i = some (.inl op)
  thread : w.threads[i]? = some (op :: rest)
  mutex : P.free op = true ∨ w.holder = none

theorem stepThread_cases {i : ℕ} {e : ε} (hnot : ∀ j c, w.holder = some (j, c) → j ≠ i)
    (h : P.stepThread w i e = some w') :
    ∃ op rest, Executes P w i op rest ∧ ((∃ s todo, P.exec e w.shared op = some (.done s todo) ∧
          w' = w.proceed i s (todo ++ rest)) ∨
        (∃ c, P.exec e w.shared op = some (.enter c) ∧ w.holder = none ∧
          w' = { w with holder := some (i, c), threads := w.threads.set i rest })) := by
  unfold stepThread at h
  split at h
  case h_2 => cases h
  case h_1 op rest hthread =>
    have hnext : w.next i = some (.inl op) := by
      rw [World.next_of_ne fun c hh => hnot i c hh rfl, hthread]
      rfl
    split at h
    case isFalse => cases h
    case isTrue hmutex =>
      rw [Bool.or_eq_true, isNone_iff_eq_none] at hmutex
      refine ⟨op, rest, ⟨hnext, hthread, hmutex⟩, ?_⟩
      split at h
      case h_1 s todo hexec =>
        exact .inl ⟨s, todo, hexec, (some.inj h).symm⟩
      case h_2 c hexec =>
        split at h
        case isTrue hnone =>
          exact .inr ⟨c, hexec, isNone_iff_eq_none.mp hnone, (some.inj h).symm⟩
        case isFalse => cases h
      case h_3 => cases h

/-- **Everything an action can do**: start a thread, go on inside the open section, execute an
instruction, or enter a section. -/
theorem step_cases (h : P.step w a = some w') :
    (∃ g, a = .call g ∧ w' = { w with threads := w.threads ++ [P.program g] }) ∨
    (∃ i e, a = .step i e ∧ ((∃ c s c', w.holder = some (i, c) ∧ w.next i = some (.inr c) ∧
          P.inside e w.shared c = some (s, c') ∧
          w' = { w with shared := s, holder := c'.map fun c' => (i, c') }) ∨
        ∃ op rest, Executes P w i op rest ∧ ((∃ s todo, P.exec e w.shared op = some (.done s todo) ∧
              w' = w.proceed i s (todo ++ rest)) ∨
            (∃ c, P.exec e w.shared op = some (.enter c) ∧ w.holder = none ∧
              w' = { w with holder := some (i, c), threads := w.threads.set i rest })))) := by
  cases a with
  | call g => exact .inl ⟨g, rfl, (Option.some.inj h).symm⟩
  | step i e =>
    refine .inr ⟨i, e, rfl, ?_⟩
    unfold step at h
    cases hh : w.holder with
    | none =>
      simp only [hh] at h
      have hnot : ∀ j c, w.holder = some (j, c) → j ≠ i := by
        intro j c hjc
        rw [hh] at hjc
        cases hjc
      have hcases := stepThread_cases hnot h
      rw [hh] at hcases
      exact .inr hcases
    | some jc =>
      obtain ⟨j, c⟩ := jc
      simp only [hh] at h
      split at h
      case isTrue hji =>
        subst hji
        obtain ⟨⟨s, c'⟩, hinside, heq⟩ := map_eq_some_iff.mp h
        exact .inl ⟨c, s, c', rfl, by simp [World.next, hh], hinside, heq.symm⟩
      case isFalse hji =>
        have hnot : ∀ j' c', w.holder = some (j', c') → j' ≠ i := by
          intro j' c' hjc
          rw [hh] at hjc
          cases hjc
          exact hji
        have hcases := stepThread_cases hnot h
        rw [hh] at hcases
        exact .inr hcases

/-! ### Invariants -/

variable {w₀ : World σ ι κ} {C : World σ ι κ → ε → ι ⊕ κ → Prop} {as : List (Action ε γ)}

/-- **The rule for whole worlds and what was done so far.**  What every action that meets the condition
preserves holds at the end of every run that meets it. -/
theorem run_meets_history {I : List (Action ε γ) → World σ ι κ → Prop}
    (hstep : ∀ as w a w', I as w → (∀ i e x, a = .step i e → w.next i = some x → C w e x) →
      P.step w a = some w' → I (as ++ [a]) w')
    (h₀ : I [] w₀) (hok : P.Meets C w₀ as)
    (h : run P.step w₀ as = some w) : I as w := by
  induction as using reverseRecOn generalizing w with
  | nil =>
    rw [run_nil, some.injEq] at h
    exact h ▸ h₀
  | append_singleton as a ih =>
    obtain ⟨u, hu, hw⟩ := run_concat.mp h
    have hpre : P.Meets C w₀ as := by
      intro pre i e post w x has
      exact hok pre i e (post ++ [a]) w x (by rw [has]; simp)
    refine hstep as u a w (ih hpre hu) ?_ hw
    intro i e x ha hnext
    exact hok as i e [] u x (by rw [ha]) hu hnext

/-- **The rule for whole worlds.** -/
theorem run_meets {I : World σ ι κ → Prop}
    (hstep : ∀ w a w', I w → (∀ i e x, a = .step i e → w.next i = some x → C w e x) →
      P.step w a = some w' → I w')
    (h₀ : I w₀) (hok : P.Meets C w₀ as)
    (h : run P.step w₀ as = some w) : I w :=
  run_meets_history (I := fun _ => I) (fun _ => hstep) h₀ hok h

section Shared

variable {I : σ → Option κ → Prop}
  (hdone : ∀ w e op s todo, I w.shared w.section? → (P.free op = true ∨ w.section? = none) →
    C w e (.inl op) → P.exec e w.shared op = some (.done s todo) → I s w.section?)
  (henter : ∀ e s op c, I s none → P.exec e s op = some (.enter c) → I s (some c))
  (hinside : ∀ w e c s c', I w.shared (some c) → C w e (.inr c) →
    P.inside e w.shared c = some (s, c') → I s c')

include hdone henter hinside

/-- One action and an invariant of the shared state and the open section: it has to survive the
instructions that can run next to the section, the entering of a section, and its steps. -/
theorem invariant_step (hI : I w.shared w.section?)
    (hmeet : ∀ i e x, a = .step i e → w.next i = some x → C w e x)
    (hstep : P.step w a = some w') : I w'.shared w'.section? := by
  rcases step_cases hstep with ⟨g, -, rfl⟩ | ⟨i, e, rfl, hcase⟩
  · exact hI
  rcases hcase with ⟨c, s, c', hholder, hnext, hinside', rfl⟩ | ⟨op, rest, hexec, hcase⟩
  · rw [World.section?_of_next hnext] at hI
    have hI' := hinside w e c s c' hI (hmeet i e _ rfl hnext) hinside'
    cases c' <;> exact hI'
  · rcases hcase with ⟨s, todo, hdone', rfl⟩ | ⟨c, henter', hholder, rfl⟩
    · refine hdone w e op s todo hI ?_ (hmeet i e _ rfl hexec.next) hdone'
      refine hexec.mutex.imp_right fun hnone => ?_
      rw [World.section?, hnone]
      rfl
    · rw [World.section?, hholder] at hI
      exact henter e w.shared op c hI henter'

/-- **The rule for the shared state and the open section**, over whole runs. -/
theorem invariant (h₀ : I w₀.shared w₀.section?)
    (hok : P.Meets C w₀ as) (h : run P.step w₀ as = some w) : I w.shared w.section? :=
  run_meets (I := fun w => I w.shared w.section?)
    (fun _ _ _ hI hmeet hstep => invariant_step hdone henter hinside hI hmeet hstep) h₀ hok h

end Shared

/-! ### Checking a given run -/

/-- Whether every action of a run meets a decidable condition. -/
def check (P : Threaded σ ι κ ε γ) (b : World σ ι κ → ε → ι ⊕ κ → Bool) :
    World σ ι κ → List (Action ε γ) → Bool
  | _, [] => true
  | w, a :: as =>
    (match a with
      | .call _ => true
      | .step i e => (w.next i).all (b w e)) &&
    (P.step w a).all fun w' => check P b w' as

theorem meets_of_check {b : World σ ι κ → ε → ι ⊕ κ → Bool} (hok : ∀ w e x, b w e x = true → C w e x)
    (h : P.check b w₀ as = true) :
    P.Meets C w₀ as := by
  induction as generalizing w₀ with
  | nil =>
    intro pre i e post w x hsplit
    simp at hsplit
  | cons a as ih =>
    intro pre i e post w x hsplit hrun hnext
    obtain ⟨hhead, htail⟩ := Bool.and_eq_true_iff.mp h
    cases pre with
    | nil =>
      obtain ⟨rfl, rfl⟩ := cons.inj hsplit
      rw [run_nil, some.injEq] at hrun
      subst hrun
      dsimp only at hhead
      rw [hnext] at hhead
      exact hok _ e x hhead
    | cons head pre =>
      obtain ⟨rfl, htailsplit⟩ := cons.inj hsplit
      obtain ⟨u, hu, hrun⟩ := bind_eq_some_iff.mp hrun
      rw [hu] at htail
      exact ih htail pre i e post w x htailsplit hrun hnext

theorem meets_of_decide [∀ w e x, Decidable (C w e x)]
    (h : P.check (fun w e x => decide (C w e x)) w₀ as = true) : P.Meets C w₀ as :=
  meets_of_check (fun _ _ _ => of_decide_eq_true) h

end Threaded

/-! ### What is still to be executed -/

namespace World

/-- Every instruction of every thread has the property. -/
def All (p : ι → Prop) (w : World σ ι κ) : Prop := ∀ thread ∈ w.threads, ∀ op ∈ thread, p op

variable {p : ι → Prop} {op : ι} {i : ℕ} {rest todo t : List ι} {w : World σ ι κ}

theorem All.call (h : w.All p) {thread : List ι}
    (hthread : ∀ op ∈ thread, p op) : All p { w with threads := w.threads ++ [thread] } := by
  exact forall_mem_append.mpr ⟨h, forall_mem_singleton.mpr hthread⟩

theorem All.head (h : w.All p) (hi : w.threads[i]? = some (op :: rest)) : p op :=
  h _ (mem_of_getElem? hi) op mem_cons_self

/-- After a step of thread `i` it is enough to look at the instructions it has put in front. -/
theorem All.set (h : w.All p)
    (hi : w.threads[i]? = some (op :: rest)) (htodo : ∀ op' ∈ todo, p op')
    (s : σ) (k : Option (ℕ × κ)) :
    All p { w with shared := s, holder := k, threads := w.threads.set i (todo ++ rest) } := by
  intro thread hthread
  rcases mem_or_eq_of_mem_set hthread with hold | rfl
  · exact h thread hold
  · intro op' hop'
    rcases mem_append.mp hop' with hnew | hold
    · exact htodo op' hnew
    · exact h _ (mem_of_getElem? hi) op' (mem_cons_of_mem _ hold)

/-- Some thread has still to execute an instruction with the property. -/
def Has (p : ι → Prop) (w : World σ ι κ) : Prop := ∃ thread ∈ w.threads, ∃ op ∈ thread, p op

theorem Has.call (h : w.Has p) (thread : List ι) : Has p { w with threads := w.threads ++ [thread] } := by
  obtain ⟨thread', hthread', hop⟩ := h
  exact ⟨thread', mem_append_left _ hthread', hop⟩

theorem has_set {t' : List ι}
    (hi : w.threads[i]? = some t) (hop : op ∈ t') (hp : p op) (s : σ) (k : Option (ℕ × κ)) :
    Has p { w with shared := s, holder := k, threads := w.threads.set i t' } := by
  have hlt : i < w.threads.length := (List.getElem?_eq_some_iff.mp hi).1
  exact ⟨t', mem_set hlt t', op, hop, hp⟩

/-- After a step of thread `i` the instruction is still there, unless it is the one executed. -/
theorem Has.set (h : w.Has p) (hi : w.threads[i]? = some (op :: rest)) (todo : List ι) (s : σ)
    (k : Option (ℕ × κ)) :
    p op ∨ Has p { w with shared := s, holder := k, threads := w.threads.set i (todo ++ rest) } := by
  obtain ⟨thread, hthread, op', hop', hp⟩ := h
  obtain ⟨j, hj⟩ := mem_iff_getElem?.mp hthread
  by_cases hij : i = j
  · subst hij
    rw [hi, some.injEq] at hj
    subst hj
    rcases mem_cons.mp hop' with heq | hrest
    · exact .inl (heq ▸ hp)
    · exact .inr (has_set hi (mem_append_right todo hrest) hp s k)
  · refine .inr ⟨thread, ?_, op', hop', hp⟩
    refine mem_iff_getElem?.mpr ⟨j, ?_⟩
    rw [getElem?_set_ne hij]
    exact hj

theorem Has.of_set (hi : w.threads[i]? = some (op :: rest)) {s : σ} {k : Option (ℕ × κ)}
    (h : Has p { w with shared := s, holder := k, threads := w.threads.set i (todo ++ rest) }) :
    (∃ op' ∈ todo, p op') ∨ w.Has p := by
  obtain ⟨thread, hthread, op', hop', hp⟩ := h
  rcases mem_or_eq_of_mem_set hthread with hold | rfl
  · exact .inr ⟨thread, hold, op', hop', hp⟩
  · rcases mem_append.mp hop' with hnew | hrest
    · exact .inl ⟨op', hnew, hp⟩
    · exact .inr ⟨_, mem_of_getElem? hi, op', mem_cons_of_mem _ hrest, hp⟩

/-- The sum of `f` over all instructions of all threads. -/
def weigh (f : ι → ℕ) (w : World σ ι κ) : ℕ := (w.threads.map fun t => (t.map f).sum).sum

variable {f : ι → ℕ} {w : World σ ι κ}

theorem weigh_call (t : List ι) :
    weigh f { w with threads := w.threads ++ [t] } = weigh f w + (t.map f).sum := by
  simp [weigh]

/-- Replacing thread `i` replaces its share of the sum. -/
theorem weigh_set (h : w.threads[i]? = some t) (t' : List ι) (s : σ) (k : Option (ℕ × κ)) :
    weigh f { w with shared := s, holder := k, threads := w.threads.set i t' } + (t.map f).sum =
      weigh f w + (t'.map f).sum := by
  obtain ⟨hi, rfl⟩ := List.getElem?_eq_some_iff.mp h
  have hset : w.threads.set i t' = w.threads.take i ++ t' :: w.threads.drop (i + 1) :=
    set_eq_take_append_cons_drop.trans (if_pos hi)
  have hold : w.threads = w.threads.take i ++ w.threads[i] :: w.threads.drop (i + 1) := by
    rw [getElem_cons_drop, take_append_drop]
  have hsum : weigh f w = ((w.threads.take i).map fun t => (t.map f).sum).sum + ((w.threads[i].map f).sum +
        ((w.threads.drop (i + 1)).map fun t => (t.map f).sum).sum) := by
    unfold weigh
    conv_lhs => rw [hold]
    rw [map_append, sum_append, map_cons, sum_cons]
  rw [hsum]
  unfold weigh
  rw [hset, map_append, sum_append, map_cons, sum_cons]
  ring

/-- An instruction is replaced by what it unfolds to. -/
theorem weigh_exec (h : w.threads[i]? = some (op :: rest)) (todo : List ι) (s : σ) (k : Option (ℕ × κ)) :
    weigh f { w with shared := s, holder := k, threads := w.threads.set i (todo ++ rest) } + f op =
      weigh f w + (todo.map f).sum := by
  have hset := weigh_set (f := f) h (todo ++ rest) s k
  rw [map_append, sum_append, map_cons, sum_cons] at hset
  omega

theorem has_of_weigh_pos (h : 0 < weigh f w) : w.Has fun op => 0 < f op := by
  by_contra hnone
  have hzero : weigh f w = 0 := by
    refine sum_eq_zero fun n hn => ?_
    obtain ⟨thread, hthread, rfl⟩ := mem_map.mp hn
    refine sum_eq_zero fun m hm => ?_
    obtain ⟨op, hop, rfl⟩ := mem_map.mp hm
    exact Nat.eq_zero_of_not_pos fun hpos => hnone ⟨thread, hthread, op, hop, hpos⟩
  omega

end World

/-! ### Threads that never hold the mutex over several steps -/

namespace Threaded

/-- Programs whose instructions change the shared state and unfold, and no more: a lock of the source,
if it matters, is a field of the shared state. -/
def plain (program : γ → List ι) (exec : ε → σ → ι → Option (σ × List ι)) : Threaded σ ι Empty ε γ where
  program := program
  exec e s op := (exec e s op).map fun r => .done r.1 r.2
  free _ := true
  inside _ _ c := c.elim

/-- A condition on the instructions only. -/
def atInstr (C : World σ ι κ → ε → ι → Prop) (w : World σ ι κ) (e : ε) : ι ⊕ κ → Prop
  | .inl op => C w e op
  | .inr _ => True

instance {C : World σ ι κ → ε → ι → Prop} [∀ w e op, Decidable (C w e op)] (w : World σ ι κ) (e : ε) :
    DecidablePred (atInstr C w e)
  | .inl op => inferInstanceAs (Decidable (C w e op))
  | .inr _ => .isTrue trivial

variable {program : γ → List ι} {exec : ε → σ → ι → Option (σ × List ι)} {w w' : World σ ι Empty}

/-- **Everything an action can do**: start a thread, or execute an instruction. -/
theorem plain_step_cases (h : (plain program exec).step w a = some w') :
    (∃ g, a = .call g ∧ w' = { w with threads := w.threads ++ [program g] }) ∨
    ∃ i e op rest s todo, a = .step i e ∧ w.next i = some (.inl op) ∧
      w.threads[i]? = some (op :: rest) ∧ exec e w.shared op = some (s, todo) ∧
      w' = w.proceed i s (todo ++ rest) := by
  rcases step_cases h with ⟨g, ha, hw⟩ | ⟨i, e, ha, hcase⟩
  · exact .inl ⟨g, ha, hw⟩
  rcases hcase with ⟨c, -⟩ | ⟨op, rest, hexec, hcase⟩
  · exact c.elim
  rcases hcase with ⟨s, todo, hdone, hw⟩ | ⟨c, -⟩
  · obtain ⟨⟨s', todo'⟩, hout, heq⟩ := map_eq_some_iff.mp hdone
    cases heq
    exact .inr ⟨i, e, op, rest, s', todo', ha, hexec.next, hexec.thread, hout, hw⟩
  · exact c.elim

variable {w₀ : World σ ι Empty} {C : World σ ι Empty → ε → ι → Prop} {as : List (Action ε γ)}
  {I : World σ ι Empty → Prop}

/-- **The rule for plain threads**, with what was done so far. -/
theorem plain_run_history {I : List (Action ε γ) → World σ ι Empty → Prop}
    (hcall : ∀ as w g, I as w → I (as ++ [.call g]) { w with threads := w.threads ++ [program g] })
    (hexec : ∀ as w i e op rest s todo, I as w → w.threads[i]? = some (op :: rest) → C w e op →
      exec e w.shared op = some (s, todo) →
      I (as ++ [.step i e]) (w.proceed i s (todo ++ rest)))
    (h₀ : I [] w₀)
    (hok : (plain program exec).Meets (atInstr C) w₀ as)
    (h : run (plain program exec).step w₀ as = some w) : I as w := by
  refine run_meets_history (I := I) (C := atInstr C) ?_ h₀ hok h
  intro as w a w' hI hmeet hstep
  rcases plain_step_cases hstep with ⟨g, rfl, rfl⟩ | ⟨i, e, op, rest, s, todo, rfl, hnext, hi, hout, rfl⟩
  · exact hcall as w g hI
  · exact hexec as w i e op rest s todo hI hi (hmeet i e _ rfl hnext) hout

/-- **The rule for plain threads.** -/
theorem plain_run_meets (hcall : ∀ w g, I w → I { w with threads := w.threads ++ [program g] })
    (hexec : ∀ w i e op rest s todo, I w → w.threads[i]? = some (op :: rest) → C w e op →
      exec e w.shared op = some (s, todo) →
      I (w.proceed i s (todo ++ rest)))
    (h₀ : I w₀)
    (hok : (plain program exec).Meets (atInstr C) w₀ as)
    (h : run (plain program exec).step w₀ as = some w) : I w :=
  plain_run_history (I := fun _ => I) (fun _ => hcall) (fun _ => hexec) h₀ hok h

/-- **Necessary and sufficient conditions.**  If a step from a good world leaves a good world exactly when
it meets the condition, then all worlds of a run are good exactly when all its steps meet it. -/
theorem plain_always_iff (hcall : ∀ w g, I w → I { w with threads := w.threads ++ [program g] })
    (hexec : ∀ w i e op rest s todo, I w → w.threads[i]? = some (op :: rest) →
      exec e w.shared op = some (s, todo) →
      (I (w.proceed i s (todo ++ rest)) ↔ C w e op))
    (h₀ : I w₀)
    (h : run (plain program exec).step w₀ as = some w) :
    (∀ pre post u, as = pre ++ post → run (plain program exec).step w₀ pre = some u → I u) ↔
      (plain program exec).Meets (atInstr C) w₀ as := by
  constructor
  · intro hgood pre i e post u x hsplit hpre hnext
    cases x with
    | inr c => exact c.elim
    | inl op =>
      -- the step was taken, so there is a world after it
      rw [hsplit, run_append, hpre, bind_some, run_cons] at h
      obtain ⟨u', hstep, -⟩ := bind_eq_some_iff.mp h
      have hu : I u := hgood pre _ u hsplit hpre
      have hu' : I u' := by
        refine hgood (pre ++ [.step i e]) post u' (by rw [hsplit]; simp) ?_
        exact run_concat.mpr ⟨u, hpre, hstep⟩
      rcases plain_step_cases hstep with ⟨g, ha, -⟩ | ⟨i', e', op', rest, s, todo, ha, hnext', hi, hout, rfl⟩
      · cases ha
      · cases ha
        rw [hnext] at hnext'
        cases hnext'
        exact (hexec u i e op rest s todo hu hi hout).mp hu'
  · intro hmeets pre post u hsplit hpre
    have hpremeets : (plain program exec).Meets (atInstr C) w₀ pre := by
      intro pre' i e post' v x hsplit' hrun hnext
      exact hmeets pre' i e (post' ++ post) v x (by rw [hsplit, hsplit']; simp) hrun hnext
    refine plain_run_meets hcall ?_ h₀ hpremeets hpre
    intro w i e op rest s todo hI hi hC hout
    exact (hexec w i e op rest s todo hI hi hout).mpr hC

end Threaded

/-! ### One thread while the others stand still -/

/-- A thread by itself: the shared state, the section it is in, and what it still has to do. -/
structure Solo (σ ι κ : Type*) where
  shared : σ
  inside? : Option κ := none
  todo : List ι

/-- What the thread does next; nothing if it is through. -/
def Solo.next (t : Solo σ ι κ) : Option (ι ⊕ κ) :=
  match t.inside? with
  | some c => some (.inr c)
  | none => t.todo.head?.map .inl

/-- The world `w` with the thread in place of thread `i`. -/
def World.withThread (w : World σ ι κ) (i : ℕ) (t : Solo σ ι κ) : World σ ι κ where
  shared := t.shared
  holder := t.inside?.map fun c => (i, c)
  threads := w.threads.set i t.todo

namespace Threaded

variable (P : Threaded σ ι κ ε γ)

def soloStep (t : Solo σ ι κ) (e : ε) : Option (Solo σ ι κ) :=
  match t.inside? with
  | some c => (P.inside e t.shared c).map fun r => { t with shared := r.1, inside? := r.2 }
  | none =>
    match t.todo with
    | [] => none
    | op :: rest =>
      match P.exec e t.shared op with
      | some (.done s todo) => some { t with shared := s, todo := todo ++ rest }
      | some (.enter c) => some { t with inside? := some c, todo := rest }
      | none => none

/-- What the thread does, one after another. -/
def trace : Solo σ ι κ → List ε → List (ι ⊕ κ)
  | _, [] => []
  | t, e :: es =>
    match P.soloStep t e with
    | none => []
    | some t' => t.next.toList ++ trace t' es

variable {P} {w : World σ ι κ} {i : ℕ} {t t' : Solo σ ι κ} {e : ε} {op : ι} {rest : List ι}

/-- **Everything the thread can do.** -/
theorem soloStep_cases (h : P.soloStep t e = some t') :
    (∃ c s c', t.inside? = some c ∧ t.next = some (.inr c) ∧ P.inside e t.shared c = some (s, c') ∧
      t' = ⟨s, c', t.todo⟩) ∨
    ∃ op rest, t.inside? = none ∧ t.todo = op :: rest ∧ t.next = some (.inl op) ∧
      ((∃ s todo, P.exec e t.shared op = some (.done s todo) ∧ t' = ⟨s, none, todo ++ rest⟩) ∨
        ∃ c, P.exec e t.shared op = some (.enter c) ∧ t' = ⟨t.shared, some c, rest⟩) := by
  obtain ⟨s, inside?, todo⟩ := t
  cases inside? with
  | some c =>
    obtain ⟨⟨s', c'⟩, hinside, rfl⟩ := map_eq_some_iff.mp h
    exact .inl ⟨c, s', c', rfl, rfl, hinside, rfl⟩
  | none =>
    cases todo with
    | nil => cases h
    | cons op rest =>
      refine .inr ⟨op, rest, rfl, rfl, rfl, ?_⟩
      simp only [soloStep] at h
      split at h
      · next s' todo hexec =>
        cases h
        exact .inl ⟨s', todo, hexec, rfl⟩
      · next c hexec =>
        cases h
        exact .inr ⟨c, hexec, rfl⟩
      · cases h

theorem soloStep_of_done {todo : List ι} {s : σ} (hout : t.inside? = none)
    (htodo : t.todo = op :: rest) (hdone : P.exec e t.shared op = some (.done s todo)) :
    P.soloStep t e = some ⟨s, none, todo ++ rest⟩ := by
  simp only [soloStep, hout, htodo, hdone]

theorem soloStep_of_enter {c : κ} (hout : t.inside? = none)
    (htodo : t.todo = op :: rest) (henter : P.exec e t.shared op = some (.enter c)) :
    P.soloStep t e = some ⟨t.shared, some c, rest⟩ := by
  simp only [soloStep, hout, htodo, henter]

theorem todo_of_next (h : t.next = some (.inl op)) : ∃ rest, t.todo = op :: rest := by
  obtain ⟨s, inside?, todo⟩ := t
  cases inside? with
  | some c => cases h
  | none =>
    cases todo with
    | nil => cases h
    | cons op' rest =>
      cases h
      exact ⟨rest, rfl⟩

theorem trace_concat {es : List ε} (hrun : run P.soloStep t es = some t') {t'' : Solo σ ι κ}
    (hstep : P.soloStep t' e = some t'') :
    P.trace t (es ++ [e]) = P.trace t es ++ t'.next.toList := by
  induction es generalizing t with
  | nil =>
    rw [run_nil, some.injEq] at hrun
    subst hrun
    simp only [nil_append, trace, hstep, append_nil]
  | cons d es ih =>
    obtain ⟨u, hu, hrun⟩ := bind_eq_some_iff.mp hrun
    simp only [cons_append, trace, hu, ih hrun, append_assoc]

/-- A step of the thread is a step of the world. -/
theorem step_withThread (hi : i < w.threads.length) (e : ε) :
    P.step (w.withThread i t) (.step i e) = (P.soloStep t e).map (w.withThread i) := by
  obtain ⟨s, inside?, todo⟩ := t
  cases inside? with
  | some c =>
    simp only [step, World.withThread, Option.map_some, if_true, soloStep, Option.map_map]
    rfl
  | none =>
    have hthread : (w.threads.set i todo)[i]? = some todo := by
      rw [List.getElem?_set_self hi]
    simp only [step, World.withThread, Option.map_none, stepThread, hthread, soloStep]
    cases todo with
    | nil => rfl
    | cons op rest =>
      simp only [Option.isNone_none, Bool.or_true, if_true, List.set_set]
      cases P.exec e s op with
      | none => rfl
      | some outcome => cases outcome <;> rfl

/-- **A run of the thread is a run of all threads.** -/
theorem run_withThread (hi : i < w.threads.length) (es : List ε) :
    run P.step (w.withThread i t) (es.map (.step i)) = (run P.soloStep t es).map (w.withThread i) := by
  induction es generalizing t with
  | nil => rfl
  | cons e es ih =>
    rw [map_cons, run_cons, run_cons, step_withThread hi]
    cases P.soloStep t e with
    | none => rfl
    | some t' => exact ih

end Threaded

end Fly.Lib
