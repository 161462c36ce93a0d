import Fly.Lib.Bytes
import Fly.Lib.Run

/-!
# A bounded queue of bytes (`network_chunk_source.cpp`: `push_block`, `pull`, `finish_stream`)

One thread pushes pieces of a stream into a queue and then marks the end; another pulls bytes out of it.
The first waits while the queue is full, the second while it is empty.

* `ByteQueue`, `step` — the queue, and the steps of the two threads; a step that has to wait is not taken;
* `Inv` — nothing is lost or moved: what was pulled, what is in the queue and what is still to come are the
  stream;
* `live` — one of the two threads can always go on; `Inv.run` — and comes to the end;
* `queued_bounded` — its size.
-/

namespace Fly.Storage

open Fly.Lib List Nat Option

/-- The queue, with what the thread has still to push and how it will end, and what `pull` has answered. -/
structure ByteQueue where
  todo : List Bytes
  /-- the failure with which the thread ends -/
  failure : Option String
  queue : List Bytes := []
  frontOffset : ℕ := 0
  queueBytes : ℕ := 0
  streamDone : Bool := false
  streamFailed : Bool := false
  /-- each request with its answer; `none` stands for `-1` -/
  answers : List (ℕ × Option Bytes) := []

namespace ByteQueue

def delivered (q : ByteQueue) : Bytes := q.answers.flatMap fun a => a.2.getD []

/-- Take up to `n` bytes from the front: the bytes, and what is left of the queue. -/
def takeFront (n : ℕ) : List Bytes → ℕ → Bytes × List Bytes × ℕ
  | [], _ => ([], [], 0)
  | front :: rest, frontOffset =>
    let got := (front.drop frontOffset).take n
    if frontOffset + got.length < front.length then (got, front :: rest, frontOffset + got.length)
    else if got.length = n then (got, rest, 0)
    else
      let more := takeFront (n - got.length) rest 0
      (got ++ more.1, more.2)

inductive Op where
  | push
  | finish
  | pull (n : ℕ)

/-- `none`: the thread has to wait, for room in the queue or for something in it. -/
def step (queueByteLimit : ℕ) (q : ByteQueue) : Op → Option ByteQueue
  | .push =>
    match q.todo with
    | [] => none
    | data :: todo =>
      if q.queueBytes + data.length ≤ queueByteLimit ∨ q.queue = [] then
        some { q with
          todo
          queue := q.queue ++ [data]
          queueBytes := q.queueBytes + data.length }
      else none
  | .finish =>
    if q.todo = [] ∧ q.streamDone = false then
      some { q with streamDone := true, streamFailed := q.failure.isSome }
    else none
  | .pull n =>
    let (got, queue, frontOffset) := takeFront n q.queue q.frontOffset
    let q' := { q with queue, frontOffset, queueBytes := q.queueBytes - got.length }
    if q.queue ≠ [] ∧ got.length = n then some { q' with answers := q.answers ++ [(n, some got)] }
    else if q.streamDone then
      some { q' with answers := q.answers ++ [(n, if q.streamFailed then none else some got)] }
    else if got ≠ [] then some { q' with answers := q.answers ++ [(n, some got)] }
    else none

/-! ### Taking bytes -/

variable {n : ℕ} {queue : List Bytes} {frontOffset queueByteLimit : ℕ} {q q' : ByteQueue}

/-- Less than the front piece is taken from it. -/
def Aligned (queue : List Bytes) (frontOffset : ℕ) : Prop :=
  (∀ b ∈ queue, b ≠ []) ∧ match queue with
    | [] => frontOffset = 0
    | front :: _ => frontOffset < front.length

theorem aligned_zero (h : ∀ b ∈ queue, b ≠ []) : Aligned queue 0 := by
  refine ⟨h, ?_⟩
  cases queue with
  | nil => rfl
  | cons front rest => exact length_pos_iff.mpr (h front mem_cons_self)

section

variable {taken : Bytes × List Bytes × ℕ} (h : Aligned queue frontOffset)

include h

/-- The bytes that are taken come from the front, and the rest stays. -/
theorem takeFront_spec (htaken : takeFront n queue frontOffset = taken) :
    taken.1 = (queue.flatten.drop frontOffset).take n ∧
      taken.2.1.flatten.drop taken.2.2 = (queue.flatten.drop frontOffset).drop n ∧
      Aligned taken.2.1 taken.2.2 := by
  subst htaken
  induction queue generalizing n frontOffset with
  | nil =>
    simp only [takeFront, flatten_nil, drop_nil, take_nil]
    exact ⟨trivial, trivial, aligned_zero (by simp)⟩
  | cons front rest ih =>
    have hoff : frontOffset < front.length := h.2
    have hothers : ∀ b ∈ rest, b ≠ [] := fun b hb => h.1 b (mem_cons_of_mem front hb)
    have hlength : ((front.drop frontOffset).take n).length = min n (front.length - frontOffset) := by
      rw [length_take, length_drop]
    have hbytes : (front :: rest).flatten.drop frontOffset = front.drop frontOffset ++ rest.flatten := by
      rw [flatten_cons, drop_append_of_le_length hoff.le]
    rw [hbytes]
    unfold takeFront
    dsimp only
    split
    · next hshort =>
      have hn : ((front.drop frontOffset).take n).length = n := by omega
      have hle : n ≤ (front.drop frontOffset).length := by rw [length_drop]; omega
      refine ⟨(take_append_of_le_length hle).symm, ?_, h.1, ?_⟩
      · rw [hn, ← drop_drop, hbytes]
      · exact hshort
    · next hall =>
      have hwhole : (front.drop frontOffset).take n = front.drop frontOffset :=
        take_of_length_le (by rw [length_drop]; omega)
      rw [hwhole] at hlength ⊢
      split
      · next hn =>
        refine ⟨?_, ?_, aligned_zero hothers⟩
        · rw [← hn, take_left]
        · rw [← hn, drop_left]
          rfl
      · obtain ⟨hgot, hleft, haligned⟩ := ih (n := n - (front.drop frontOffset).length)
          (aligned_zero hothers)
        rw [drop_zero] at hgot hleft
        refine ⟨?_, ?_, haligned⟩
        · rw [hgot, take_append, hwhole]
        · have hle : (front.drop frontOffset).length ≤ n := by omega
          rw [hleft, drop_append, drop_of_length_le hle, nil_append]

/-- A queue with nothing left in it is empty. -/
theorem eq_nil_of_drop_eq_nil (hnil : queue.flatten.drop frontOffset = []) : queue = [] := by
  cases queue with
  | nil => rfl
  | cons front rest =>
    have hoff : frontOffset < front.length := h.2
    have hlength := congrArg length hnil
    rw [length_drop, flatten_cons, length_append, length_nil] at hlength
    omega

/-- Something is taken from a queue that is not empty. -/
theorem takeFront_ne_nil (htaken : takeFront n queue frontOffset = taken) (hqueue : queue ≠ []) (hn : 0 < n) :
    taken.1 ≠ [] := by
  have hbytes : 0 < (queue.flatten.drop frontOffset).length :=
    length_pos_iff.mpr fun hnil => hqueue (eq_nil_of_drop_eq_nil h hnil)
  rw [(takeFront_spec h htaken).1]
  refine length_pos_iff.mp ?_
  rw [length_take]
  omega

/-- Less than what was wanted is taken only if nothing is left. -/
theorem takeFront_eq_nil_of_short (htaken : takeFront n queue frontOffset = taken)
    (hshort : queue = [] ∨ taken.1.length ≠ n) : taken.2.1 = [] := by
  rcases hshort with rfl | hshort
  · rw [← htaken]
    rfl
  obtain ⟨hgot, hleft, haligned⟩ := takeFront_spec h htaken
  refine eq_nil_of_drop_eq_nil haligned ?_
  rw [hgot, length_take] at hshort
  rw [hleft]
  exact drop_of_length_le (by omega)

end

/-! ### Runs -/

theorem step_push (h : q.step queueByteLimit .push = some q') :
    ∃ data todo, q.todo = data :: todo ∧ q' = { q with
      todo
      queue := q.queue ++ [data]
      queueBytes := q.queueBytes + data.length } := by
  rw [step] at h
  split at h
  · cases h
  · next data todo htodo =>
    split at h
    · exact ⟨data, todo, htodo, (some.inj h).symm⟩
    · cases h

theorem step_finish (h : q.step queueByteLimit .finish = some q') :
    q.todo = [] ∧ q.streamDone = false ∧
      q' = { q with streamDone := true, streamFailed := q.failure.isSome } := by
  rw [step] at h
  split at h
  · next hopen => exact ⟨hopen.1, hopen.2, (some.inj h).symm⟩
  · cases h

/-- What a pull may do. -/
theorem step_pull (h : q.step queueByteLimit (.pull n) = some q') :
    ∃ taken answer, takeFront n q.queue q.frontOffset = taken ∧ q' = { q with
        queue := taken.2.1
        frontOffset := taken.2.2
        queueBytes := q.queueBytes - taken.1.length
        answers := q.answers ++ [(n, answer)] } ∧
      ((answer = some taken.1 ∧ ((q.queue ≠ [] ∧ taken.1.length = n) ∨
          (q.streamDone = true ∧ q.streamFailed = false) ∨ taken.1 ≠ [])) ∨
      (answer = none ∧ q.streamDone = true ∧ q.streamFailed = true ∧
        (q.queue = [] ∨ taken.1.length ≠ n))) := by
  unfold step at h
  dsimp only at h
  split at h
  · next hfull => exact ⟨_, _, rfl, (some.inj h).symm, .inl ⟨rfl, .inl hfull⟩⟩
  next hshort =>
  split at h
  · next hdone =>
    refine ⟨_, _, rfl, (some.inj h).symm, ?_⟩
    cases hfailed : q.streamFailed with
    | false => exact .inl ⟨rfl, .inr (.inl ⟨hdone, rfl⟩)⟩
    | true =>
      refine .inr ⟨rfl, hdone, rfl, ?_⟩
      by_cases hqueue : q.queue = []
      · exact .inl hqueue
      · exact .inr fun hn => hshort ⟨hqueue, hn⟩
  · split at h
    · next hsome => exact ⟨_, _, rfl, (some.inj h).symm, .inl ⟨rfl, .inr (.inr hsome)⟩⟩
    · cases h

/-- Nothing is lost or moved, except what a failed stream leaves in the queue. -/
structure Inv (stream : Bytes) (q : ByteQueue) : Prop where
  order : q.delivered ++ (q.queue.flatten.drop q.frontOffset ++ q.todo.flatten) = stream ∨
    q.streamFailed = true ∧ q.queue = [] ∧ q.delivered <+: stream
  aligned : Aligned q.queue q.frontOffset
  todo : ∀ b ∈ q.todo, b ≠ []
  done : q.streamDone = true → q.todo = [] ∧ q.streamFailed = q.failure.isSome
  running : q.streamDone = false → q.streamFailed = false
  refused : ∀ a ∈ q.answers, a.2 = none → q.streamDone = true ∧ q.streamFailed = true
  ended : ∀ a ∈ q.answers, a.2 = some [] → 0 < a.1 →
    q.streamDone = true ∧ q.streamFailed = false ∧ q.queue = []

theorem delivered_concat (q : ByteQueue) (a : ℕ × Option Bytes) (queue : List Bytes)
    (frontOffset queueBytes : ℕ) :
    delivered { q with queue, frontOffset, queueBytes, answers := q.answers ++ [a] } =
      q.delivered ++ a.2.getD [] := by
  simp [delivered]

variable {stream : Bytes} {op : Op}

theorem Inv.push (h : q.Inv stream) (hstep : q.step queueByteLimit .push = some q') : q'.Inv stream := by
  obtain ⟨data, todo, htodo, rfl⟩ := step_push hstep
  have hopen : q.streamDone = false := by
    refine Bool.eq_false_iff.mpr fun hdone => ?_
    rw [(h.done hdone).1] at htodo
    cases htodo
  have horder : q.delivered ++ (q.queue.flatten.drop q.frontOffset ++ q.todo.flatten) = stream := by
    rcases h.order with horder | ⟨hfailed, -⟩
    · exact horder
    · rw [h.running hopen] at hfailed
      cases hfailed
  have htodoNe : ∀ b ∈ data :: todo, b ≠ [] := htodo ▸ h.todo
  have hdata := htodoNe data mem_cons_self
  refine ⟨.inl ?_, ⟨?_, ?_⟩, fun b hb => htodoNe b (mem_cons_of_mem data hb), ?_, h.running, h.refused, ?_⟩
  · show q.delivered ++ ((q.queue ++ [data]).flatten.drop q.frontOffset ++ todo.flatten) = stream
    rw [← horder, htodo]
    have hle : q.frontOffset ≤ q.queue.flatten.length := by
      have haligned := h.aligned.2
      cases hqueue : q.queue with
      | nil =>
        rw [hqueue] at haligned
        rw [haligned]
        exact zero_le _
      | cons front rest =>
        rw [hqueue] at haligned
        rw [flatten_cons, length_append]
        exact haligned.le.trans (le_add_right _ _)
    rw [flatten_append, drop_append_of_le_length hle]
    simp
  · exact forall_mem_append.mpr ⟨h.aligned.1, forall_mem_singleton.mpr hdata⟩
  · have haligned := h.aligned.2
    cases hqueue : q.queue with
    | nil =>
      rw [hqueue] at haligned
      rw [haligned]
      exact length_pos_iff.mpr hdata
    | cons front rest =>
      rw [hqueue] at haligned
      exact haligned
  · intro hdone
    rw [hopen] at hdone
    cases hdone
  · intro a ha hnil hpos
    have hended := (h.ended a ha hnil hpos).1
    rw [hopen] at hended
    cases hended

theorem Inv.finish (h : q.Inv stream) (hstep : q.step queueByteLimit .finish = some q') :
    q'.Inv stream := by
  obtain ⟨htodo, hopen, rfl⟩ := step_finish hstep
  have hnot : ∀ {p : Prop}, q.streamDone = true → p := fun hdone => by
    rw [hopen] at hdone
    cases hdone
  refine ⟨?_, h.aligned, h.todo, fun _ => ⟨htodo, rfl⟩, nofun,
    fun a ha hnone => hnot (h.refused a ha hnone).1, fun a ha hnil hpos => hnot (h.ended a ha hnil hpos).1⟩
  rcases h.order with horder | ⟨hfailed, -⟩
  · exact .inl horder
  · rw [h.running hopen] at hfailed
    cases hfailed

theorem Inv.pull (h : q.Inv stream) (hstep : q.step queueByteLimit (.pull n) = some q') :
    q'.Inv stream := by
  obtain ⟨taken, answer, htaken, rfl, hanswer⟩ := step_pull hstep
  obtain ⟨hgot, hleft, haligned⟩ := takeFront_spec h.aligned htaken
  have hempty : q.queue = [] → taken.2.1 = [] :=
    fun hnil => takeFront_eq_nil_of_short h.aligned htaken (.inl hnil)
  refine ⟨?_, haligned, h.todo, h.done, h.running, fun a ha hnone => ?_, fun a ha hnil hpos => ?_⟩
  · rw [delivered_concat]
    rcases h.order with horder | ⟨hfailed, hqueue, hprefix⟩
    · rcases hanswer with ⟨hsome, -⟩ | ⟨hnone, -, hfailed, hshort⟩
      · refine .inl ?_
        rw [hsome, getD_some, hleft, hgot, ← horder, append_assoc,
          ← append_assoc (take n _), take_append_drop]
      · refine .inr ⟨hfailed, takeFront_eq_nil_of_short h.aligned htaken hshort, ?_⟩
        rw [hnone, getD_none, append_nil, ← horder]
        exact prefix_append _ _
    · -- a failed stream with nothing in the queue gives nothing any more
      refine .inr ⟨hfailed, hempty hqueue, ?_⟩
      have hnothing : answer.getD [] = [] := by
        rcases hanswer with ⟨hsome, -⟩ | ⟨hnone, -⟩
        · rw [hsome, ← htaken, hqueue]
          rfl
        · rw [hnone]
          rfl
      rw [hnothing, append_nil]
      exact hprefix
  · rcases mem_append.mp ha with ha | ha
    · exact h.refused a ha hnone
    rw [mem_singleton.mp ha] at hnone
    rcases hanswer with ⟨hsome, -⟩ | ⟨-, hdone, hfailed, -⟩
    · rw [hsome] at hnone
      cases hnone
    · exact ⟨hdone, hfailed⟩
  · rcases mem_append.mp ha with ha | ha
    · obtain ⟨hdone, hhealthy, hqueue⟩ := h.ended a ha hnil hpos
      exact ⟨hdone, hhealthy, hempty hqueue⟩
    rw [mem_singleton.mp ha] at hnil hpos
    rcases hanswer with ⟨hsome, hcases⟩ | ⟨hnone, -⟩
    · have hnothing : taken.1 = [] := some.inj (hsome.symm.trans hnil)
      have hqueue : q.queue = [] := by
        by_contra hne
        exact takeFront_ne_nil h.aligned htaken hne hpos hnothing
      rcases hcases with ⟨hne, -⟩ | ⟨hdone, hhealthy⟩ | hne
      · exact absurd hqueue hne
      · exact ⟨hdone, hhealthy, hempty hqueue⟩
      · exact absurd hnothing hne
    · rw [hnone] at hnil
      cases hnil

theorem Inv.step (h : q.Inv stream) (hstep : q.step queueByteLimit op = some q') :
    q'.Inv stream ∧ q'.failure = q.failure := by
  cases op with
  | push =>
    refine ⟨h.push hstep, ?_⟩
    obtain ⟨data, todo, -, rfl⟩ := step_push hstep
    rfl
  | finish =>
    refine ⟨h.finish hstep, ?_⟩
    obtain ⟨-, -, rfl⟩ := step_finish hstep
    rfl
  | pull n =>
    refine ⟨h.pull hstep, ?_⟩
    obtain ⟨-, answer, -, rfl, -⟩ := step_pull hstep
    rfl

/-- One of the two threads can go on. -/
theorem Inv.live (h : q.Inv stream) (queueByteLimit : ℕ) :
    (∃ q', q.step queueByteLimit .push = some q') ∨ (∃ q', q.step queueByteLimit .finish = some q') ∨
      ∀ n, 0 < n → ∃ q', q.step queueByteLimit (.pull n) = some q' := by
  by_cases hdone : q.streamDone = true
  · refine .inr (.inr fun n hn => ?_)
    by_cases hfull : q.queue ≠ [] ∧ (takeFront n q.queue q.frontOffset).1.length = n
    · exact ⟨_, if_pos hfull⟩
    · exact ⟨_, (if_neg hfull).trans (if_pos hdone)⟩
  by_cases htodo : q.todo = []
  · exact .inr (.inl ⟨_, if_pos ⟨htodo, Bool.eq_false_iff.mpr hdone⟩⟩)
  by_cases hqueue : q.queue = []
  · obtain ⟨data, todo, hsplit⟩ := exists_cons_of_ne_nil htodo
    refine .inl ?_
    rw [ByteQueue.step, hsplit]
    exact ⟨_, if_pos (.inr hqueue)⟩
  · refine .inr (.inr fun n hn => ?_)
    by_cases hfull : q.queue ≠ [] ∧ (takeFront n q.queue q.frontOffset).1.length = n
    · exact ⟨_, if_pos hfull⟩
    · exact ⟨_, (if_neg hfull).trans
        ((if_neg hdone).trans (if_pos (takeFront_ne_nil h.aligned rfl hqueue hn)))⟩

/-! ### The end -/

/-- How many steps there are before the end: pushes, the mark, and bytes. -/
def work (q : ByteQueue) : ℕ :=
  (q.queue.flatten.drop q.frontOffset).length + q.todo.flatten.length + q.todo.length +
    (if q.streamDone then 0 else 1)

/-- `pull` has told the end of the stream. -/
def AtEnd (q : ByteQueue) : Prop := ∃ a ∈ q.answers, 0 < a.1 ∧ (a.2 = none ∨ a.2 = some [])

/-- A step is work done, or tells the end. -/
theorem Inv.work_step (h : q.Inv stream) (hop : ∀ n, op = .pull n → 0 < n)
    (hstep : q.step queueByteLimit op = some q') : q'.work < q.work ∨ q'.AtEnd := by
  cases op with
  | push =>
    left
    obtain ⟨data, todo, htodo, rfl⟩ := step_push hstep
    have hsum : ((q.queue ++ [data]).flatten.drop q.frontOffset).length ≤
        (q.queue.flatten.drop q.frontOffset).length + data.length := by
      rw [flatten_append, length_drop, length_drop, length_append]
      simp only [flatten_cons, flatten_nil, append_nil]
      omega
    show ((q.queue ++ [data]).flatten.drop q.frontOffset).length + todo.flatten.length + todo.length +
      (if q.streamDone then 0 else 1) < q.work
    rw [work, htodo, flatten_cons, length_append, length_cons]
    omega
  | finish =>
    left
    obtain ⟨-, hopen, rfl⟩ := step_finish hstep
    show _ + 0 < q.work
    rw [work, hopen]
    exact lt_succ_self _
  | pull n =>
    have hn := hop n rfl
    obtain ⟨taken, answer, htaken, rfl, hanswer⟩ := step_pull hstep
    obtain ⟨hgot, hleft, -⟩ := takeFront_spec h.aligned htaken
    have hlast : (n, answer) ∈ q.answers ++ [(n, answer)] := mem_append_right _ mem_cons_self
    by_cases hend : answer = none ∨ answer = some []
    · exact .inr ⟨_, hlast, hn, hend⟩
    left
    obtain ⟨hnone, hnil⟩ := not_or.mp hend
    rcases hanswer with ⟨hsome, -⟩ | ⟨hanswer, -⟩
    · have hpos : 0 < taken.1.length :=
        length_pos_iff.mpr fun hempty => hnil (hsome.trans (congrArg some hempty))
      rw [hgot, length_take] at hpos
      show (taken.2.1.flatten.drop taken.2.2).length + q.todo.flatten.length + q.todo.length +
        (if q.streamDone then 0 else 1) < q.work
      rw [hleft, work, length_drop]
      omega
    · exact absurd hanswer hnone

theorem AtEnd.step (h : q.AtEnd) (hstep : q.step queueByteLimit op = some q') : q'.AtEnd := by
  obtain ⟨a, ha, hend⟩ := h
  cases op with
  | push =>
    obtain ⟨data, todo, -, rfl⟩ := step_push hstep
    exact ⟨a, ha, hend⟩
  | finish =>
    obtain ⟨-, -, rfl⟩ := step_finish hstep
    exact ⟨a, ha, hend⟩
  | pull n =>
    obtain ⟨-, answer, -, rfl, -⟩ := step_pull hstep
    exact ⟨a, mem_append_left _ ha, hend⟩

/-- **Every run**: the invariant holds, and after enough steps the end was told. -/
theorem Inv.run {ops : List Op} (h : q.Inv stream)
    (hrun : run (ByteQueue.step queueByteLimit) q ops = some q') :
    q'.Inv stream ∧ q'.failure = q.failure ∧
      ((∀ n, .pull n ∈ ops → 0 < n) → ops.length + q'.work ≤ q.work ∨ q'.AtEnd) := by
  induction ops using reverseRecOn generalizing q' with
  | nil =>
    rw [run_nil, some.injEq] at hrun
    subst hrun
    exact ⟨h, rfl, fun _ => .inl (le_of_eq (zero_add _))⟩
  | append_singleton ops op ih =>
    obtain ⟨u, hu, hv⟩ := run_concat.mp hrun
    obtain ⟨hinv, hfailure, hwork⟩ := ih hu
    obtain ⟨hinv', hfailure'⟩ := hinv.step hv
    refine ⟨hinv', hfailure'.trans hfailure, fun hpos => ?_⟩
    have hop : ∀ n, op = .pull n → 0 < n := fun n heq =>
      hpos n (mem_append_right ops (heq ▸ mem_cons_self))
    rcases hwork fun n hn => hpos n (mem_append_left [op] hn) with hle | hend
    · refine (hinv.work_step hop hv).imp_left fun hlt => ?_
      rw [length_append, length_singleton]
      omega
    · exact .inr (hend.step hv)

/-! ### The room it takes -/

/-- The counter is what lies in the queue, and stays within the bound. -/
structure Counted (bound : ℕ) (q : ByteQueue) : Prop where
  counted : q.queueBytes = (q.queue.flatten.drop q.frontOffset).length
  bounded : q.queueBytes ≤ bound
  todo : ∀ b ∈ q.todo, b.length ≤ bound

theorem Counted.step {bound : ℕ} (h : q.Counted bound) (haligned : Aligned q.queue q.frontOffset)
    (hlimit : queueByteLimit ≤ bound) (hstep : q.step queueByteLimit op = some q') : q'.Counted bound := by
  have hcounted := h.counted
  cases op with
  | push =>
    obtain ⟨data, todo, htodo, -⟩ := step_push hstep
    rw [ByteQueue.step, htodo] at hstep
    obtain ⟨hroom, hq'⟩ := ite_none_right_eq_some.mp hstep
    cases hq'
    obtain ⟨hdata, hothers⟩ := forall_mem_cons.mp (htodo ▸ h.todo)
    have hoff : q.frontOffset ≤ q.queue.flatten.length := by
      by_contra hlt
      have hnil := eq_nil_of_drop_eq_nil haligned (drop_of_length_le (by omega))
      have hzero := haligned.2
      rw [hnil] at hzero hlt
      exact hlt (hzero.trans_le (Nat.zero_le _))
    refine ⟨?_, ?_, hothers⟩
    · simp only [flatten_append, flatten_singleton, length_drop, length_append] at hcounted ⊢
      omega
    · rcases hroom with hle | hnil
      · exact hle.trans hlimit
      · rw [hnil, flatten_nil, drop_nil, length_nil] at hcounted
        show q.queueBytes + data.length ≤ bound
        omega
  | finish =>
    obtain ⟨-, -, rfl⟩ := step_finish hstep
    exact ⟨hcounted, h.bounded, h.todo⟩
  | pull n =>
    obtain ⟨taken, answer, htaken, rfl, -⟩ := step_pull hstep
    obtain ⟨hgot, hleft, -⟩ := takeFront_spec haligned htaken
    refine ⟨?_, (Nat.sub_le _ _).trans h.bounded, h.todo⟩
    show q.queueBytes - taken.1.length = (taken.2.1.flatten.drop taken.2.2).length
    rw [hgot, hleft, hcounted, length_take, length_drop (i := n)]
    omega

/-- **The queue is bounded**, in every run: its counter is what lies in it, so it never wraps around, and
that is at most the limit or the largest piece. -/
theorem queued_bounded {pieces : List Bytes} {failure : Option String} {largest : ℕ} {ops : List Op}
    (hpieces : ∀ b ∈ pieces, b ≠ [] ∧ b.length ≤ largest)
    (hrun : run (ByteQueue.step queueByteLimit) { todo := pieces, failure } ops = some q) :
    q.queueBytes = (q.queue.flatten.drop q.frontOffset).length ∧
      q.queueBytes ≤ max queueByteLimit largest := by
  obtain ⟨-, h⟩ := run_invariant
    (I := fun q => q.Inv pieces.flatten ∧ q.Counted (max queueByteLimit largest))
    (fun _ _ _ _ h hstep => ⟨(h.1.step hstep).1, h.2.step h.1.aligned (le_max_left _ _) hstep⟩)
    ⟨⟨.inl rfl, aligned_zero nofun, fun b hb => (hpieces b hb).1, nofun, fun _ => rfl, nofun, nofun⟩,
      rfl, Nat.zero_le _, fun b hb => (hpieces b hb).2.trans (le_max_right _ _)⟩ hrun
  exact ⟨h.counted, h.bounded⟩

/-- The second piece waits until the first is nearly gone. -/
theorem queued_bounded_second :
    ∃ q, run (ByteQueue.step 4) { todo := [[1, 2, 3], [4, 5, 6]], failure := none }
      [.push, .pull 2, .push, .pull 3] = some q ∧ q.delivered = [1, 2, 3, 4, 5] ∧
      q.queueBytes = (q.queue.flatten.drop q.frontOffset).length ∧ q.queueBytes ≤ max 4 3 :=
  exists_and_of_decide (by decide) fun _ hrun _ => queued_bounded (by decide) hrun

end ByteQueue

end Fly.Storage
