import Fly.Lib.Run

/-!
# Reading an object from its replicas

A worker that does not hold an object asks the replicas it knows, round after round, and in between once
asks the master for their locations.  A replica whose data fails its checksum is given up, and the object
may be fetched once more: everything but clean data is then fatal, unless the fetch ends because the
process shuts down.

* `FetchResult`, `Answer`, `Reading`, `step` — `try_tier2_read` and the loop of `read_raw_compressed`
  around it, as they go on from one answer to the next;
* `budget_kept_iff` — after a checksum failure the call ends with its next fetch, in clean data or fatally,
  **iff** that fetch is not cut short by a shutdown.
-/

namespace Fly.Storage

open Fly.Lib

inductive FetchResult (δ : Type) where
  | found (data : δ)
  | checksum
  | objectNotFound
  | dataNotReady
  | network
  | shutdown

/-- What the call meets, in this order: the replicas of a lookup, the result of a fetch, the clock after
a round, and the master's answer. -/
inductive Answer (δ : Type) where
  | replicas (workers : List ℕ)
  | fetched (result : FetchResult δ)
  | pastDeadline (past : Bool)
  | located (refreshed canStillProduce : Bool)

inductive ReadOutcome (δ : Type) where
  | data (data : δ)
  | notFound (canStillProduce : Bool)
  /-- `MSG_FATAL_EXIT` -/
  | fatal

inductive ReadStage (δ : Type) where
  | lookup (refetch : Bool)
  /-- the fetch from `worker` is under way -/
  | fetch (worker : ℕ) (rest : List ℕ) (refetch sawNotReady : Bool)
  | clock
  | askMaster
  | ended (outcome : ReadOutcome δ)

structure Reading (δ : Type) where
  stage : ReadStage δ := .lookup false
  tier3Queried : Bool := false
  lastCanStillProduce : Bool := false

namespace Reading

variable {δ : Type} (remoteCb : Bool) (r : Reading δ)

/-- `try_tier2_read` has returned without data. -/
def leaveTier2 : Reading δ :=
  if r.tier3Queried then { r with stage := .ended (.notFound r.lastCanStillProduce) }
  else if remoteCb then { r with stage := .askMaster }
  else { r with stage := .ended (.notFound false) }

/-- The next replica of the round, or what comes after its last. -/
def goOn (rest : List ℕ) (refetch sawNotReady : Bool) : Reading δ :=
  match rest with
  | worker :: rest => { r with stage := .fetch worker rest refetch sawNotReady }
  | [] =>
    if refetch then { r with stage := .ended .fatal }
    else if sawNotReady then { r with stage := .lookup false }
    else { r with stage := .clock }

def onFetched (rest : List ℕ) (refetch sawNotReady : Bool) : FetchResult δ → Reading δ
  | .found data => { r with stage := .ended (.data data) }
  | .checksum => if refetch then { r with stage := .ended .fatal } else r.goOn rest true sawNotReady
  | .shutdown => r.leaveTier2 remoteCb
  | .objectNotFound | .network =>
    if refetch then { r with stage := .ended .fatal } else r.goOn rest false sawNotReady
  | .dataNotReady => if refetch then { r with stage := .ended .fatal } else r.goOn rest false true

/-- The call goes on with an answer; `none` if it waits for another one. -/
def step (answer : Answer δ) : Option (Reading δ) :=
  match r.stage, answer with
  | .lookup refetch, .replicas [] =>
    some (if refetch then { r with stage := .ended .fatal } else r.leaveTier2 remoteCb)
  | .lookup refetch, .replicas (worker :: rest) =>
    some { r with stage := .fetch worker rest refetch false }
  | .fetch _ rest refetch sawNotReady, .fetched result =>
    some (r.onFetched remoteCb rest refetch sawNotReady result)
  | .clock, .pastDeadline past =>
    some (if past then r.leaveTier2 remoteCb else { r with stage := .lookup false })
  | .askMaster, .located refreshed canStillProduce =>
    some ⟨if refreshed then .lookup false else .ended (.notFound canStillProduce), true, canStillProduce⟩
  | _, _ => none

variable {remoteCb r} {r' : Reading δ}

/-- What is left of the call behind a checksum failure: at most one fetch, whose clean data are returned
or which ends the call fatally. -/
def Budget (post : List (Answer δ)) (stage : ReadStage δ) : Prop :=
  (post = [] ∧ (stage = .ended .fatal ∨ ∃ worker rest saw, stage = .fetch worker rest true saw)) ∨
  (∃ data, post = [.fetched (.found data)] ∧ stage = .ended (.data data)) ∨
  (∃ result, post = [.fetched result] ∧ stage = .ended .fatal)

/-- The call before any checksum failure. -/
def Clean (stage : ReadStage δ) : Prop :=
  stage ≠ .lookup true ∧ stage ≠ .ended .fatal ∧ ∀ worker rest saw, stage ≠ .fetch worker rest true saw

theorem clean_leaveTier2 (r : Reading δ) : Clean (r.leaveTier2 remoteCb).stage := by
  unfold leaveTier2 Clean
  split_ifs <;> simp

theorem clean_goOn (r : Reading δ) (rest : List ℕ) (saw : Bool) : Clean (r.goOn rest false saw).stage := by
  cases rest <;> cases saw <;> simp [goOn, Clean]

theorem clean_step (h : Clean r.stage) {a : Answer δ} (ha : a ≠ .fetched .checksum)
    (hstep : r.step remoteCb a = some r') : Clean r'.stage := by
  unfold step at hstep
  split at hstep
  · next refetch hs =>
    cases hstep
    cases refetch with
    | false => exact clean_leaveTier2 r
    | true => exact absurd hs h.1
  · next refetch worker rest hs =>
    cases hstep
    cases refetch with
    | false => simp [Clean]
    | true => exact absurd hs h.1
  · next worker rest refetch saw result hs =>
    cases hstep
    cases refetch with
    | false =>
      cases result with
      | found data => simp [onFetched, Clean]
      | checksum => exact absurd rfl ha
      | shutdown => exact clean_leaveTier2 r
      | objectNotFound | dataNotReady | network => exact clean_goOn r rest _
    | true => exact absurd hs (h.2.2 worker rest saw)
  · next past hs =>
    cases hstep
    cases past with
    | false => simp [Clean]
    | true => exact clean_leaveTier2 r
  · next refreshed csp hs =>
    cases hstep
    cases refreshed <;> simp [Clean]
  · cases hstep

/-- The call is over. -/
theorem eq_nil_of_ended {outcome : ReadOutcome δ} (h : r.stage = .ended outcome) {as : List (Answer δ)}
    (hrun : run (step remoteCb) r as = some r') : as = [] ∧ r' = r := by
  cases as with
  | nil => exact ⟨rfl, (Option.some.inj hrun).symm⟩
  | cons a as =>
    obtain ⟨u, hu, -⟩ := Option.bind_eq_some_iff.mp hrun
    simp [step, h] at hu

/-- The re-fetch: everything but a shutdown is the end of the call. -/
theorem budget_of_refetch {worker : ℕ} {rest : List ℕ} {saw : Bool}
    (h : r.stage = .fetch worker rest true saw) {post : List (Answer δ)}
    (hrun : run (step remoteCb) r post = some r') :
    Budget post r'.stage ↔ ∀ rest, post ≠ .fetched .shutdown :: rest := by
  cases post with
  | nil =>
    cases hrun
    exact iff_of_true (.inl ⟨rfl, .inr ⟨worker, rest, saw, h⟩⟩) fun _ => List.cons_ne_nil _ _ ∘ Eq.symm
  | cons a post =>
    obtain ⟨u, hu, hrun⟩ := Option.bind_eq_some_iff.mp hrun
    cases a with
    | fetched result =>
      simp only [step, h, Option.some.injEq] at hu
      subst hu
      cases result with
      | shutdown =>
        refine iff_of_false ?_ fun h => h post rfl
        rintro (⟨hpost, -⟩ | ⟨data, hpost, -⟩ | ⟨result, hpost, hfatal⟩)
        · cases hpost
        · cases hpost
        · cases hpost
          cases hrun
          exact (clean_leaveTier2 r).2.1 hfatal
      | found data =>
        obtain ⟨rfl, rfl⟩ := eq_nil_of_ended rfl hrun
        exact iff_of_true (.inr (.inl ⟨data, rfl, rfl⟩)) (by simp)
      | checksum | objectNotFound | dataNotReady | network =>
        obtain ⟨rfl, rfl⟩ := eq_nil_of_ended rfl hrun
        exact iff_of_true (.inr (.inr ⟨_, rfl, rfl⟩)) (by simp)
    | replicas workers | pastDeadline past | located refreshed csp => simp [step, h] at hu

/-- **One re-fetch.**  Behind the first checksum failure of a call comes at most one fetch, and the call
ends in its clean data or fatally, iff that fetch is not the victim of a shutdown. -/
theorem budget_kept_iff (remoteCb : Bool) (pre post : List (Answer δ)) (hfirst : .fetched .checksum ∉ pre)
    (hrun : run (step remoteCb) {} (pre ++ .fetched .checksum :: post) = some r) :
    Budget post r.stage ↔ ∀ rest, post ≠ .fetched .shutdown :: rest := by
  obtain ⟨t, u, ht, hu, hrun⟩ := run_append_cons.mp hrun
  have hclean : Clean t.stage := by
    refine run_invariant (I := fun r => Clean r.stage) (fun a ha s s' h hstep => ?_) ?_ ht
    · exact clean_step h (fun heq => hfirst (heq ▸ ha)) hstep
    · simp [Clean]
  cases hs : t.stage with
  | fetch worker rest refetch saw =>
    obtain rfl : refetch = false := by
      cases refetch with
      | false => rfl
      | true => exact absurd hs (hclean.2.2 worker rest saw)
    simp only [step, hs, Option.some.injEq] at hu
    subst hu
    cases rest with
    | nil =>
      obtain ⟨rfl, rfl⟩ := eq_nil_of_ended rfl hrun
      exact iff_of_true (.inl ⟨rfl, .inl rfl⟩) fun _ => List.cons_ne_nil _ _ ∘ Eq.symm
    | cons worker' rest => exact budget_of_refetch rfl hrun
  | lookup _ | clock | askMaster | ended _ => simp [step, hs] at hu

/-- The first replica is damaged, and the fetch from the second is cut short: the master is asked, and the
object is fetched two more times. -/
theorem shutdown_renews_budget : ∃ r : Reading ℕ,
    run (step true) {} [.replicas [1, 2], .fetched .checksum, .fetched .shutdown, .located true false,
      .replicas [3, 4], .fetched .checksum, .fetched (.found 7)] = some r ∧
    ¬Budget [.fetched .shutdown, .located true false, .replicas [3, 4], .fetched .checksum,
      .fetched (.found 7)] r.stage := by
  refine ⟨_, rfl, ?_⟩
  rintro (⟨hpost, -⟩ | ⟨data, hpost, -⟩ | ⟨result, hpost, -⟩) <;> cases hpost

theorem budget_kept_iff_clean : ∃ r : Reading ℕ,
    run (step true) {} [.replicas [1, 2], .fetched .checksum, .fetched (.found 7)] = some r ∧
      (Budget [.fetched (.found 7)] r.stage ↔
        ∀ rest, [Answer.fetched (.found 7)] ≠ .fetched .shutdown :: rest) :=
  ⟨_, rfl, budget_kept_iff true [.replicas [1, 2]] _ (by simp) rfl⟩

end Reading

end Fly.Storage
