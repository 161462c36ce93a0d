import Fly.Lib.Run
import Fly.Agent.RemovalCondition

/-!
# A removal is final

* `Settling` — the invariant, for a removed object and a process: what the process still has of the object
  is about to be cleared by a message under way, or belongs to a write that is about to be decided;
* `Settling.of_keeps` — the frame: most steps bring nothing new of an object;
* `Inv.step` — every safe step keeps the invariant;
* `removal_final` — a run of safe steps ends in a final state;
* `removal_not_final` — three runs with an unsafe step, after which a removed object is back or still there.
-/

namespace Fly.Agent

open Fly.Lib Fly.Storage List Option Process Cluster MasterAnswer MasterRequest Process.Keeps

namespace Cluster

variable {n : ℕ}

/-! ### The invariant -/

/-- What a process still has of a removed object. -/
structure Settling (s : Cluster n) (o : ObjectName) (q : Fin (n + 1)) : Prop where
  hasLocal : (s.processes q).HasLocal o → s.Asks q (Registers o) ∨ s.Gets q (Clears o)
  indexed : q ≠ 0 → (s.processes q).Indexed o → s.Asks q (RegistersIndexed o) ∨ s.Gets q (Commands o)
  queued : q ≠ 0 → (s.processes q).Queued o ∨ s.Gets q (Queues o) → s.Gets q (Commands o)

structure Inv (s : Cluster n) : Prop where
  tracked : ∀ q, (s.processes q).Tracked
  unknown : ∀ o, s.Removed o → s.tables.Unknown o
  settling : ∀ o, s.Removed o → ∀ q, s.Settling o q

theorem inv_empty : Inv ({} : Cluster n) where
  tracked _ _ := ⟨Database.tracked_empty, Database.tracked_empty⟩
  unknown o h := by
    obtain ⟨pre, post, h, -⟩ := h
    exact absurd h (by simp)
  settling o h := by
    obtain ⟨pre, post, h, -⟩ := h
    exact absurd h (by simp)

/-- In a state where nothing is under way nothing is left. -/
theorem Inv.final {s : Cluster n} (h : s.Inv) : s.Final := by
  rintro ⟨hrequests, hanswers⟩ o ho
  refine ⟨h.unknown o ho, fun q => ?_⟩
  rw [← not_isSome_iff_eq_none]
  intro hlocal
  rcases (h.settling o ho q).hasLocal hlocal with ⟨m, hm, -⟩ | ⟨m, hm, -⟩
  · rw [hrequests] at hm
    cases hm
  · rw [hanswers] at hm
    cases hm

variable {s s' : Cluster n} {o : ObjectName} {p q : Fin (n + 1)}
  {process : Process} {w : ObjectWrite} {inTask frozen : Bool} {adds : List (String × List IndexEntry)}
  {removes : List String} {i : ℕ} {answer : MasterAnswer} {dbPath : String}

theorem removed_concat {event : MasterEvent} (h : s'.history = s.history ++ [event]) :
    s'.Removed o ↔ event = .removed o ∨ s.Removed o ∧ event ≠ .accepted o := by
  unfold Removed
  rw [h]
  constructor
  · rintro ⟨pre, post, hsplit, hnot⟩
    rcases concat_eq_append_cons_iff.mp hsplit with ⟨-, hevent, -⟩ | ⟨post', rfl, hhistory⟩
    · exact .inl hevent.symm
    · refine .inr ⟨⟨pre, post', hhistory, fun hmem => hnot (mem_append_left _ hmem)⟩, ?_⟩
      rintro rfl
      exact hnot (mem_append_right _ mem_cons_self)
  · rintro (rfl | ⟨⟨pre, post, hsplit, hnot⟩, hne⟩)
    · exact ⟨s.history, [], rfl, not_mem_nil⟩
    · refine ⟨pre, post ++ [event], by rw [hsplit]; simp, fun hmem => ?_⟩
      rcases mem_append.mp hmem with hmem | hmem
      · exact hnot hmem
      · exact hne (mem_singleton.mp hmem).symm

theorem Asks.mono {P : MasterRequest → Prop} (h : s.Asks q P)
    (hstays : ∀ m ∈ s.requests, m.1 = q → P m.2 → m ∈ s'.requests) : s'.Asks q P := by
  obtain ⟨m, hm, hmq, hP⟩ := h
  exact ⟨m, hstays m hm hmq hP, hmq, hP⟩

theorem Gets.mono {P : MasterAnswer → Prop} (h : s.Gets q P)
    (hstays : ∀ m ∈ s.answers, m.1 = q → P m.2 → m ∈ s'.answers) : s'.Gets q P := by
  obtain ⟨m, hm, hmq, hP⟩ := h
  exact ⟨m, hstays m hm hmq hP, hmq, hP⟩

/-- **The frame.**  No news of the object at the process, and the messages about it are still there. -/
theorem Settling.of_keeps (h : s.Settling o q) (hkeeps : (s.processes q).Keeps (s'.processes q) o)
    (hasks : ∀ m ∈ s.requests, m.1 = q → m.2.Registers o → m ∈ s'.requests)
    (hgets : ∀ m ∈ s.answers, m.1 = q → m.2.Clears o → m ∈ s'.answers)
    (hqueues : ∀ m ∈ s'.answers, m.1 = q → m.2.Queues o → m ∈ s.answers) : s'.Settling o q := by
  have hcommands : s.Gets q (Commands o) → s'.Gets q (Commands o) := fun hcommand =>
    hcommand.mono fun m hm hmq hm' => hgets m hm hmq hm'.clears
  refine ⟨fun hlocal => ?_, fun hq hindexed => ?_, fun hq hqueued => hcommands (h.queued hq ?_)⟩
  · exact (h.hasLocal (hkeeps.hasLocal hlocal)).imp (·.mono hasks) (·.mono hgets)
  · refine (h.indexed hq (hkeeps.indexed hindexed)).imp (fun hasked => ?_) hcommands
    exact hasked.mono fun m hm hmq hm' => hasks m hm hmq hm'.registers
  · exact hqueued.imp hkeeps.queued (·.mono hqueues)

theorem processes_set (s : Cluster n) (p q : Fin (n + 1)) (process : Process) :
    (s.set p process).processes q = if q = p then process else s.processes q :=
  Function.update_apply ..

theorem processes_set_self (s : Cluster n) (q : Fin (n + 1)) (process : Process) :
    (s.set q process).processes q = process := Function.update_self ..

theorem keeps_set_of_ne (h : q ≠ p) : (s.processes q).Keeps ((s.set p process).processes q) o := by
  rw [processes_set, if_neg h]
  exact refl _ o

/-- What is to be shown of a process that has gone on. -/
theorem Settling.of_eq (hprocess : s'.processes q = process)
    (hasLocal : process.HasLocal o → s'.Asks q (Registers o) ∨ s'.Gets q (Clears o))
    (indexed : q ≠ 0 → process.Indexed o → s'.Asks q (RegistersIndexed o) ∨ s'.Gets q (Commands o))
    (queued : q ≠ 0 → process.Queued o ∨ s'.Gets q (Queues o) → s'.Gets q (Commands o)) : s'.Settling o q :=
  ⟨hprocess ▸ hasLocal, hprocess ▸ indexed, hprocess ▸ queued⟩

theorem tracked_set (h : ∀ q, (s.processes q).Tracked) (hprocess : process.Tracked) :
    ∀ q, ((s.set p process).processes q).Tracked := by
  intro q
  rw [processes_set]
  split
  · exact hprocess
  · exact h q

/-- One process goes on with nothing new of any object; requests may be added. -/
theorem Inv.of_keeps (h : s.Inv) (htracked : process.Tracked)
    (hkeeps : ∀ o, s.Removed o → (s.processes p).Keeps process o)
    (hprocesses : s'.processes = (s.set p process).processes) (htables : s'.tables = s.tables)
    (hhistory : s'.history = s.history) (hrequests : ∀ m ∈ s.requests, m ∈ s'.requests)
    (hanswers : s'.answers = s.answers) : s'.Inv := by
  have hremoved : ∀ o, s'.Removed o → s.Removed o := by
    intro o ho
    unfold Removed at ho
    rwa [hhistory] at ho
  refine ⟨?_, fun o ho => ?_, fun o ho q => ?_⟩
  · rw [hprocesses]
    exact tracked_set h.tracked htracked
  · rw [htables]
    exact h.unknown o (hremoved o ho)
  · refine (h.settling o (hremoved o ho) q).of_keeps ?_ (fun m hm _ _ => hrequests m hm)
      (fun m hm _ _ => by rw [hanswers]; exact hm) (fun m hm _ _ => by rw [← hanswers]; exact hm)
    rw [hprocesses, processes_set]
    split
    · next hq => exact hq ▸ hkeeps o (hremoved o ho)
    · exact refl _ o

/-! ### Steps of a process -/

theorem Inv.write (h : s.Inv)
    (hsafe : s.Safe (.write p w inTask adds removes)) (hstep : s.write p w inTask adds removes = some s') :
    s'.Inv := by
  obtain ⟨-, hstep⟩ := ite_none_right_eq_some.mp hstep
  obtain ⟨process, hstart, rfl⟩ := map_eq_some_iff.mp hstep
  obtain ⟨hqueue, hlocal, hindexed, htracked⟩ := startWrite_spec hstart
  have hkeeps : ∀ o, o ≠ w.object → (s.processes p).Keeps process o := by
    intro o hne
    refine ⟨fun ho => (hlocal o ho).resolve_right fun hw => hne hw.1,
      fun ho => (hindexed o ho).resolve_right fun hw => hne hw.1, fun ho => ?_⟩
    unfold Queued at ho
    rwa [hqueue] at ho
  have htracked := htracked (h.tracked p)
  -- of an object that was removed the master is asked
  have hask : ∀ o, s.Removed o → p ≠ 0 → process.checkLocal w ≠ .ask → o ≠ w.object := by
    rintro o ho hp hcheck rfl
    obtain ⟨hnone, hindex⟩ := hsafe hp (h.unknown _ ho)
    exact hcheck (checkLocal_of_no_copy hstart hnone hindex)
  have hcheck : ∀ c : LocalCheck, c ≠ .ask →
      (if p = 0 then LocalCheck.ask else process.checkLocal w) = c →
      p ≠ 0 ∧ process.checkLocal w ≠ .ask := by
    intro c hc heq
    split at heq
    · exact absurd heq.symm hc
    · next hp => exact ⟨hp, by rw [heq]; exact hc⟩
  split
  · -- the request is on its way
    refine ⟨tracked_set h.tracked htracked, h.unknown, fun o ho q => ?_⟩
    have hold := h.settling o ho q
    by_cases hq : q = p
    · subst hq
      have hnew : (q, writeRegister w) ∈ s.requests ++ [(q, .writeRegister w)] :=
        mem_append_right _ mem_cons_self
      refine .of_eq (s.processes_set_self q process) (fun hnow => ?_) (fun hzero hnow => ?_)
        fun hzero hnow => hold.queued hzero ?_
      · rcases hlocal o hnow with hbefore | ⟨rfl, hroute⟩
        · exact (hold.hasLocal hbefore).imp_left (·.mono fun _ hm _ _ => mem_append_left _ hm)
        · exact .inl ⟨_, hnew, rfl, rfl, hroute⟩
      · rcases hindexed o hnow with hbefore | ⟨rfl, hroute⟩
        · exact (hold.indexed hzero hbefore).imp_left (·.mono fun _ hm _ _ => mem_append_left _ hm)
        · exact .inl ⟨_, hnew, rfl, rfl, hroute⟩
      · refine hnow.imp_left fun hqueued => ?_
        unfold Queued at hqueued
        rwa [hqueue] at hqueued
    · exact hold.of_keeps (keeps_set_of_ne hq) (fun m hm _ _ => mem_append_left _ hm) (fun _ hm _ _ => hm)
        (fun _ hm _ _ => hm)
  · next heq =>
    obtain ⟨hp, hnot⟩ := hcheck _ (by decide) heq
    refine h.of_keeps (tracked_onRegistered htracked w) (fun o ho => ?_) rfl rfl rfl (fun _ hm => hm) rfl
    have hne := hask o ho hp hnot
    exact (hkeeps o hne).trans (process.keeps_onRegistered fun _ => hne.symm)
  · next heq =>
    obtain ⟨hp, hnot⟩ := hcheck _ (by decide) heq
    refine h.of_keeps (tracked_onRefused htracked w) (fun o ho => ?_) rfl rfl rfl (fun _ hm => hm) rfl
    exact (hkeeps o (hask o ho hp hnot)).trans (process.keeps_onRefused w o)

theorem Inv.writeBack (h : s.Inv)
    (hback : (s.processes p).writeBack inTask adds removes = some process) : (s.set p process).Inv := by
  obtain ⟨hlocal, hindexed, hqueued, htracked⟩ := writeBack_spec hback
  refine ⟨tracked_set h.tracked (htracked (h.tracked p)), h.unknown, fun o ho q => ?_⟩
  have hold := h.settling o ho q
  by_cases hq : q = p
  · subst hq
    refine .of_eq (processes_set_self ..) (fun hnow => ?_) (fun hzero hnow => ?_)
      fun hzero hnow => hold.queued hzero ?_
    · exact hold.hasLocal (hlocal o hnow)
    · rcases hindexed o hnow with hbefore | hbefore
      · exact hold.indexed hzero hbefore
      · exact .inr (hold.queued hzero (.inl hbefore))
    · exact hnow.imp_left (hqueued o)
  · exact hold.of_keeps (keeps_set_of_ne hq) (fun _ hm _ _ => hm) (fun _ hm _ _ => hm) (fun _ hm _ _ => hm)

/-! ### Messages -/

theorem mem_eraseIdx_or {α : Type} {l : List α} {a x : α} (ha : l[i]? = some a) (hx : x ∈ l) :
    x = a ∨ x ∈ l.eraseIdx i := by
  obtain ⟨j, hj⟩ := mem_iff_getElem?.mp hx
  by_cases hij : j = i
  · rw [hij, ha] at hj
    exact .inl (some.inj hj).symm
  · exact .inr (mem_eraseIdx_iff_getElem?.mpr ⟨j, hij, hj⟩)

/-- A stream whose object the master does not know is refused only if the database is closed. -/
theorem doWriteRegister_of_unknown {t : ObjectTables} (h : t.Unknown w.object)
    (worker : ℕ) : t.doWriteRegister false worker w ≠ none := by
  unfold ObjectTables.doWriteRegister
  rw [if_neg Bool.false_ne_true, splitFullName_full]
  dsimp only
  rcases Provenance.checkAndRegister_spec t.writeProvenance w.object w.hash_ne with
    ⟨provenance, hok, -⟩ | ⟨-, hother⟩
  · rw [hok]
    exact some_ne_none _
  · exact absurd (.inl h.1) hother

theorem Inv.handleRegister (h : s.Inv)
    (hi : s.requests[i]? = some (p, .writeRegister w)) (hsafe : s.SafeRequest p frozen (.writeRegister w)) :
    (({ s with requests := s.requests.eraseIdx i }).onRequest p frozen (.writeRegister w)).Inv := by
  have hother : ∀ (o : ObjectName) (q : Fin (n + 1)), (q = p → o ≠ w.object) → ∀ m ∈ s.requests, m.1 = q →
      m.2.Registers o → m ∈ s.requests.eraseIdx i := by
    intro o q hne m hm hmq hregisters
    rcases mem_eraseIdx_or hi hm with rfl | hstays
    · exact absurd hregisters.1.symm (hne hmq.symm)
    · exact hstays
  unfold onRequest
  dsimp only
  split
  · next hrefused =>
    refine ⟨h.tracked, h.unknown, fun o ho q => ?_⟩
    have hold := h.settling o ho q
    have hqueues : ∀ m ∈ s.answers ++ [(p, .refused w)], m.1 = q → m.2.Queues o → m ∈ s.answers := by
      intro m hm _ hqueues
      refine (mem_append.mp hm).resolve_right fun hm => ?_
      rw [mem_singleton.mp hm] at hqueues
      exact hqueues
    by_cases hsame : q = p ∧ o = w.object
    · obtain ⟨rfl, rfl⟩ := hsame
      have hcommands : s.Gets q (Commands w.object) →
          Gets { s with
            requests := s.requests.eraseIdx i, answers := s.answers ++ [(q, .refused w)] } q
            (Commands w.object) :=
        (·.mono fun _ hm _ _ => mem_append_left _ hm)
      refine ⟨fun hnow => ?_, fun hzero hnow => ?_,
        fun hzero hnow => hcommands (hold.queued hzero (hnow.imp_right (·.mono hqueues)))⟩
      · rcases hold.hasLocal hnow with ⟨m, hm, hmq, hregisters⟩ | ⟨m, hm, hrest⟩
        · rcases mem_eraseIdx_or hi hm with rfl | hstays
          · refine .inr ⟨_, mem_append_right _ mem_cons_self, rfl, ?_⟩
            exact hregisters
          · exact .inl ⟨m, hstays, hmq, hregisters⟩
        · exact .inr ⟨m, mem_append_left _ hm, hrest⟩
      · rcases hold.indexed hzero hnow with ⟨m, hm, hmq, hregisters⟩ | hcommand
        · rcases mem_eraseIdx_or hi hm with rfl | hstays
          · -- such a stream is not refused
            have hopen := hsafe ⟨h.unknown _ ho, hregisters.2⟩
            rw [hopen] at hrefused
            exact absurd hrefused (doWriteRegister_of_unknown (h.unknown _ ho) q)
          · exact .inl ⟨m, hstays, hmq, hregisters⟩
        · exact .inr (hcommands hcommand)
    · exact hold.of_keeps (refl _ o) (hother o q fun hq ho' => hsame ⟨hq, ho'⟩)
        (fun m hm _ _ => mem_append_left _ hm) hqueues
  · next tables haccepted =>
    have hbefore : ∀ o, Removed { s with
        requests := s.requests.eraseIdx i, tables, answers := s.answers ++ [(p, .registered w)]
        history := s.history ++ [.accepted w.object] } o → s.Removed o ∧ o ≠ w.object := by
      intro o ho
      rcases (removed_concat rfl).mp ho with hevent | ⟨ho, hevent⟩
      · cases hevent
      · exact ⟨ho, fun heq => hevent (by rw [heq])⟩
    refine ⟨h.tracked, fun o ho => ?_, fun o ho q => ?_⟩
    · exact (h.unknown o (hbefore o ho).1).doWriteRegister (hbefore o ho).2 haccepted
    · refine (h.settling o (hbefore o ho).1 q).of_keeps (refl _ o)
        (hother o q fun _ => (hbefore o ho).2) (fun m hm _ _ => mem_append_left _ hm) ?_
      intro m hm _ hqueues
      refine (mem_append.mp hm).resolve_right fun hm => (hbefore o ho).2 ?_
      rw [mem_singleton.mp hm] at hqueues
      exact hqueues.1.symm

theorem Inv.handleRemove (h : s.Inv) {object : ObjectName}
    (hi : s.requests[i]? = some (p, .removeRequest object))
    (hsafe : s.SafeRequest p frozen (.removeRequest object)) :
    (({ s with requests := s.requests.eraseIdx i }).onRequest p frozen (.removeRequest object)).Inv := by
  let s₁ : Cluster n := { s with requests := s.requests.eraseIdx i }
  have hrequests : ∀ (o : ObjectName), ∀ m ∈ s.requests, m.2.Registers o → m ∈ s₁.requests := by
    intro o m hm hregisters
    rcases mem_eraseIdx_or hi hm with rfl | hstays
    · exact hregisters.elim
    · exact hstays
  show Inv { (s₁.onMasterRemove object).2 with
    answers := (s₁.onMasterRemove object).2.answers ++ [(p, removeAck object !(s₁.onMasterRemove object).1)] }
  generalize (!(s₁.onMasterRemove object).1) = notFound
  -- what the removal adds to the answers
  have hold : ∀ m ∈ s.answers, m ∈ (s₁.onMasterRemove object).2.answers ++
      [(p, removeAck object notFound)] := fun m hm =>
    mem_append_left _ (mem_append_left _ hm)
  have hnew : ∀ m ∈ (s₁.onMasterRemove object).2.answers ++
      [(p, removeAck object notFound)], ∀ o, m.2.Queues o → m ∈ s.answers := by
    intro m hm o hqueues
    rcases mem_append.mp hm with hm | hm
    · rcases mem_append.mp hm with hm | hm
      · exact hm
      · obtain ⟨worker, -, hm⟩ := mem_filterMap.mp hm
        obtain ⟨q, -, rfl⟩ := map_eq_some_iff.mp hm
        exact hqueues.elim
    · rw [mem_singleton.mp hm] at hqueues
      exact hqueues.elim
  have hkeeps : ∀ (o : ObjectName) (q : Fin (n + 1)),
      (s.processes q).Keeps ((s₁.onMasterRemove object).2.processes q) o := by
    intro o q
    show (s.processes q).Keeps ((s₁.set 0 ((s₁.processes 0).removeLocalIndex object)).processes q) o
    rw [processes_set]
    split
    · next hq => exact hq ▸ (s.processes 0).keeps_removeLocalIndex object o
    · exact refl _ o
  refine ⟨fun q => ?_, fun o ho => ?_, fun o ho q => ?_⟩
  · refine tracked_set h.tracked ?_ q
    exact h.tracked 0
  · rcases (removed_concat (s := s) rfl).mp ho with
      hevent | ⟨ho, -⟩
    · cases hevent
      exact s.tables.unknown_onMasterRemove object
    · exact ((h.unknown o ho).removeRemoteIndex _).provenanceErase _ _
  · rcases (removed_concat (s := s) rfl).mp ho with
      hevent | ⟨ho, -⟩
    · cases hevent
      -- the object is removed now: a process that has it is the caller, or gets a command
      have hreached : ∀ q, q ≠ 0 → s.Reached q object →
          Gets { (s₁.onMasterRemove object).2 with
            answers := (s₁.onMasterRemove object).2.answers ++
              [(p, removeAck object notFound)] } q (Commands object) := by
        rintro q hq (hgets | ⟨hlive, hholder⟩)
        · exact hgets.mono fun m hm _ _ => hold m hm
        refine ⟨(q, removeCommand object),
          mem_append_left _ (mem_append_right _ (mem_filterMap.mpr ⟨q, hholder, ?_⟩)), rfl, rfl⟩
        have hne : (q : ℕ) ≠ 0 := fun hzero => hq (Fin.ext hzero)
        rw [workerToConn, dif_pos q.isLt, if_pos ⟨hne, hlive⟩]
        rfl
      refine ⟨fun hnow => ?_, fun hzero hnow => ?_, fun hzero hnow => ?_⟩
      · by_cases hzero : q = 0
        · subst hzero
          exact absurd hnow ((s₁.processes 0).not_hasLocal_removeLocalIndex object)
        by_cases hcaller : q = p
        · exact .inr ⟨_, mem_append_right _ mem_cons_self, hcaller.symm, rfl⟩
        rcases (hsafe q hzero).1 hcaller ((hkeeps object q).hasLocal hnow) with
          hasks | hgets | hreach
        · exact .inl (hasks.mono fun m hm _ => hrequests object m hm)
        · exact .inr (hgets.mono fun m hm _ _ => hold m hm)
        · obtain ⟨m, hm, hmq, hcommand⟩ := hreached q hzero hreach
          exact .inr ⟨m, hm, hmq, hcommand.clears⟩
      · refine ((hsafe q hzero).2.1 ((hkeeps object q).indexed hnow)).imp (fun hasks => ?_)
          (hreached q hzero)
        exact hasks.mono fun m hm _ hm' => hrequests object m hm hm'.registers
      · refine hreached q hzero ((hsafe q hzero).2.2 (hnow.imp (hkeeps object q).queued ?_))
        exact (·.mono fun m hm _ => hnew m hm object)
    · exact (h.settling o ho q).of_keeps (hkeeps o q) (fun m hm _ => hrequests o m hm)
        (fun m hm _ _ => hold m hm) (fun m hm _ => hnew m hm o)

theorem Inv.handle (h : s.Inv) (hsafe : s.Safe (.handle i frozen))
    (hstep : s.handle i frozen = some s') : s'.Inv := by
  unfold Cluster.handle at hstep
  split at hstep
  · next p request hi =>
    obtain ⟨-, hstep⟩ := ite_none_right_eq_some.mp hstep
    cases hstep
    have hsafe := hsafe _ hi
    cases request with
    | writeRegister w => exact h.handleRegister hi hsafe
    | removeRequest object => exact h.handleRemove hi hsafe
  · cases hstep

/-- The cluster once an answer has arrived. -/
abbrev received (s : Cluster n) (i : ℕ) (q : Fin (n + 1)) (answer : MasterAnswer) : Cluster n :=
  ({ s with answers := s.answers.eraseIdx i }).set q ((s.processes q).receive answer)

section Receive

variable (hi : s.answers[i]? = some (q, answer))

include hi

theorem Gets.received {P : MasterAnswer → Prop} (h : s.Gets q P) (hP : ¬P answer) :
    (s.received i q answer).Gets q P := by
  refine h.mono fun m hm _ hm' => (mem_eraseIdx_or hi hm).resolve_left ?_
  rintro rfl
  exact hP hm'

variable (h : s.Settling o q)

include h

/-- The answer is about another object, or of no importance for what is left of this one. -/
theorem Settling.receive_of_keeps (hkeeps : (s.processes q).Keeps ((s.processes q).receive answer) o)
    (hclears : ¬answer.Clears o) : (s.received i q answer).Settling o q := by
  refine h.of_keeps ?_ (fun _ hm _ _ => hm) ?_ (fun m hm _ _ => mem_of_mem_eraseIdx hm)
  · rw [processes_set_self]
    exact hkeeps
  · intro m hm _ hmclears
    rcases mem_eraseIdx_or hi hm with rfl | hstays
    · exact absurd hmclears hclears
    · exact hstays

/-- The object leaves the local index, and nothing else changes. -/
theorem Settling.receive_of_cleared (hkeeps : (s.processes q).Keeps ((s.processes q).receive answer) o)
    (hlocal : ¬((s.processes q).receive answer).HasLocal o) (hcommand : ¬answer.Commands o) :
    (s.received i q answer).Settling o q := by
  have hcommands : s.Gets q (Commands o) → (s.received i q answer).Gets q (Commands o) :=
    (·.received hi hcommand)
  refine .of_eq (processes_set_self ..) (fun hnow => ?_) (fun hzero hnow => ?_)
    fun hzero hnow => hcommands (h.queued hzero ?_)
  · exact absurd hnow hlocal
  · exact (h.indexed hzero (hkeeps.indexed hnow)).imp_right hcommands
  · exact hnow.imp hkeeps.queued (·.mono fun _ hm _ _ => mem_of_mem_eraseIdx hm)

theorem Settling.receive (hsafe : s.SafeAnswer q answer) : (s.received i q answer).Settling o q := by
  cases answer with
  | registered w =>
    by_cases hw : w.route = .queued ∧ w.object = o
    · obtain ⟨hroute, rfl⟩ := hw
      -- the write goes to the queue; a command follows it
      have hcommands : q ≠ 0 → (s.received i q (.registered w)).Gets q (Commands w.object) := by
        intro hzero
        exact (h.queued hzero (.inr ⟨_, mem_of_getElem? hi, rfl, rfl, hroute⟩)).received hi id
      have hprocess : (s.processes q).receive (.registered w) =
          { s.processes q with writeBackQueue := (s.processes q).writeBackQueue ++ [w] } := by
        show (s.processes q).onRegistered w = _
        unfold onRegistered
        rw [hroute]
      refine .of_eq ((processes_set_self ..).trans hprocess) (fun hnow => ?_)
        (fun hzero _ => .inr (hcommands hzero)) fun hzero _ => hcommands hzero
      exact (h.hasLocal hnow).imp_right (·.received hi id)
    · exact h.receive_of_keeps hi ((s.processes q).keeps_onRegistered fun hroute heq => hw ⟨hroute, heq⟩) id
  | refused w =>
    have hkeeps := (s.processes q).keeps_onRefused w o
    by_cases hw : w.object = o ∧ w.route ≠ .permission
    · obtain ⟨rfl, hroute⟩ := hw
      refine h.receive_of_cleared hi hkeeps ?_ id
      show ¬((s.processes q).onRefused w).HasLocal w.object
      rw [onRefused, if_neg hroute]
      exact (s.processes q).not_hasLocal_removeLocalIndex w.object
    · exact h.receive_of_keeps hi hkeeps hw
  | removeAck object notFound =>
    have hkeeps := (s.processes q).keeps_removeLocalIndex object o
    by_cases hobject : object = o
    · subst hobject
      exact h.receive_of_cleared hi hkeeps ((s.processes q).not_hasLocal_removeLocalIndex object) id
    · exact h.receive_of_keeps hi hkeeps hobject
  | removeCommand object =>
    by_cases hobject : object = o
    · subst hobject
      obtain ⟨htemp, hqueued, hqueues⟩ := hsafe
      refine .of_eq (processes_set_self ..) (fun hnow => ?_) (fun _ hnow => ?_) fun _ hnow => ?_
      · exact absurd hnow ((s.processes q).not_hasLocal_removeLocalIndex object)
      · exact absurd (((s.processes q).indexed_onRemoveCommand object object hnow).2 rfl) htemp
      · rcases hnow with hnow | ⟨m, hm, hrest⟩
        · exact absurd hnow hqueued
        · exact absurd ⟨m, mem_of_mem_eraseIdx hm, hrest⟩ hqueues
    · exact h.receive_of_keeps hi ⟨((s.processes q).keeps_removeLocalIndex object o).hasLocal,
        fun hin => ((s.processes q).indexed_onRemoveCommand object o hin).1, id⟩ hobject

end Receive

/-- A worker that loses nothing has nothing in an index or in its queue that a message had to clear. -/
theorem Settling.of_losesNothing (h : s.Settling o q) (hunknown : s.tables.Unknown o) (hq : q ≠ 0)
    (hloses : s.LosesNothing q) : ¬(s.processes q).Indexed o ∧ ¬(s.processes q).Queued o := by
  have hcommand : ¬s.Gets q (Commands o) := by
    rintro ⟨m, hm, hmq, hcommand⟩
    have hcommand := hcommand.isCommand
    rw [hloses.1 m hm hmq] at hcommand
    cases hcommand
  constructor
  · intro hindexed
    rcases h.indexed hq hindexed with ⟨⟨r, request⟩, hm, hmq, hregisters⟩ | hgets
    · cases request with
      | writeRegister w =>
        refine hloses.2 _ hm hmq ⟨?_, hregisters.2⟩
        rw [hregisters.1]
        exact hunknown
      | removeRequest object => exact hregisters
    · exact hcommand hgets
  · intro hqueued
    exact hcommand (h.queued hq (.inl hqueued))

variable (h : s.Inv)

include h

theorem Inv.receive (hsafe : s.Safe (.receive i)) (hstep : s.receive i = some s') : s'.Inv := by
  unfold Cluster.receive at hstep
  split at hstep
  · next q answer hi =>
    cases hstep
    refine ⟨tracked_set h.tracked (tracked_receive (h.tracked q) answer), h.unknown, fun o ho r => ?_⟩
    have hold := h.settling o ho r
    by_cases hr : r = q
    · subst hr
      exact hold.receive hi (hsafe _ hi)
    refine hold.of_keeps (keeps_set_of_ne hr) (fun _ hm _ _ => hm) ?_ (fun m hm _ _ => mem_of_mem_eraseIdx hm)
    intro m hm hmr _
    rcases mem_eraseIdx_or hi hm with rfl | hstays
    · exact absurd hmr.symm hr
    · exact hstays
  · cases hstep

/-! ### Connections -/

theorem Inv.disconnect (hsafe : s.LosesNothing q) (hstep : s.disconnect q = some s') : s'.Inv := by
  obtain ⟨hq, hstep⟩ := ite_none_right_eq_some.mp hstep
  cases hstep
  have hqueues : ∀ (o : ObjectName), ∀ m ∈ s.answers.filter (·.1 ≠ q) ++
      (s.requests.filter (·.1 = q)).map (fun r => (q, r.2.timeOut)) ++
      (s.answers.filter (·.1 = q)).filterMap (fun a => a.2.timeOut.map fun answer => (q, answer)),
      m.2.Queues o → m ∈ s.answers ∧ m.1 ≠ q := by
    intro o m hm hqueues
    rcases mem_append.mp hm with hm | hm
    · rcases mem_append.mp hm with hm | hm
      · obtain ⟨hm, hne⟩ := mem_filter.mp hm
        exact ⟨hm, of_decide_eq_true hne⟩
      · obtain ⟨r, -, rfl⟩ := mem_map.mp hm
        exact absurd hqueues (r.2.not_queues_timeOut o)
    · obtain ⟨a, -, ha⟩ := mem_filterMap.mp hm
      obtain ⟨answer, hanswer, rfl⟩ := map_eq_some_iff.mp ha
      exact absurd hqueues (not_queues_of_timeOut hanswer)
  refine ⟨h.tracked, h.unknown, fun o ho r => ?_⟩
  have hold := h.settling o ho r
  by_cases hr : r = q
  · subst hr
    obtain ⟨hindexed, hqueued⟩ := hold.of_losesNothing (h.unknown o ho) hq.1 hsafe
    refine ⟨fun hnow => .inr ?_, fun _ hnow => absurd hnow hindexed, fun _ hnow => ?_⟩
    · rcases hold.hasLocal hnow with ⟨m, hm, hmr, hregisters⟩ | ⟨m, hm, hmr, hclears⟩
      · refine ⟨(r, m.2.timeOut), mem_append_left _ (mem_append_right _ ?_), rfl, hregisters.timeOut⟩
        exact mem_map.mpr ⟨m, mem_filter.mpr ⟨hm, decide_eq_true hmr⟩, rfl⟩
      · obtain ⟨answer, hanswer, hclears⟩ := hclears.timeOut (hsafe.1 m hm hmr)
        refine ⟨(r, answer), mem_append_right _ (mem_filterMap.mpr ⟨m, ?_, ?_⟩), rfl, hclears⟩
        · exact mem_filter.mpr ⟨hm, decide_eq_true hmr⟩
        · rw [hanswer]
          rfl
    · rcases hnow with hnow | ⟨m, hm, hmr, hnow⟩
      · exact absurd hnow hqueued
      · exact absurd hmr (hqueues o m hm hnow).2
  · refine hold.of_keeps (refl _ o) (fun m hm hmr _ => ?_) (fun m hm hmr _ => ?_)
      (fun m hm _ hmqueues => (hqueues o m hm hmqueues).1)
    · exact mem_filter.mpr ⟨hm, decide_eq_true (hmr ▸ hr)⟩
    · refine mem_append_left _ (mem_append_left _ ?_)
      exact mem_filter.mpr ⟨hm, decide_eq_true (hmr ▸ hr)⟩

theorem Inv.die (hsafe : s.LosesNothing q) (hstep : s.die q = some s') : s'.Inv := by
  obtain ⟨hq, hstep⟩ := ite_none_right_eq_some.mp hstep
  cases hstep
  refine ⟨tracked_set h.tracked (h.tracked q), h.unknown, fun o ho r => ?_⟩
  have hold := h.settling o ho r
  by_cases hr : r = q
  · subst hr
    obtain ⟨hindexed, -⟩ := hold.of_losesNothing (h.unknown o ho) hq.1 hsafe
    refine .of_eq (s.processes_set_self r _) (fun hnow => ?_) (fun _ hnow => ?_) fun _ hnow => ?_
    · exact absurd hnow (by simp [HasLocal])
    · exact absurd hnow hindexed
    · rcases hnow with hnow | ⟨m, hm, hmr, -⟩
      · exact absurd hnow (by simp [Queued])
      · exact absurd hmr (of_decide_eq_true (mem_filter.mp hm).2)
  · exact hold.of_keeps (keeps_set_of_ne hr)
      (fun m hm hmr _ => mem_filter.mpr ⟨hm, decide_eq_true (hmr ▸ hr)⟩)
      (fun m hm hmr _ => mem_filter.mpr ⟨hm, decide_eq_true (hmr ▸ hr)⟩)
      (fun m hm _ _ => mem_of_mem_filter hm)

/-! ### Loading index files -/

/-- When nothing is under way and the removals are saved, the files of a worker do not have an object that
was removed. -/
theorem Inv.notMem_loadedNames (hq : q ≠ 0) (hsafe : s.SafeLoad dbPath q)
    (ho : s.Removed o) (hdb : o.dbPath = dbPath) :
    o.shortName ∉ loadedNames ((s.processes q).databases dbPath) := by
  intro hmem
  obtain ⟨⟨hrequests, hanswers⟩, hsaved⟩ := hsafe
  have hindexed := (indexed_of_mem_loadedNames (h.tracked q dbPath) hsaved hmem).1
  subst hdb
  rcases (h.settling o ho q).indexed hq hindexed with ⟨m, hm, -⟩ | ⟨m, hm, -⟩
  · rw [hrequests] at hm
    cases hm
  · rw [hanswers] at hm
    cases hm

theorem Inv.rebuild (hsafe : s.SafeLoad dbPath q) (hstep : s.rebuild dbPath q p = some s') : s'.Inv := by
  obtain ⟨hq, hstep⟩ := ite_none_right_eq_some.mp hstep
  cases hstep
  refine ⟨h.tracked, fun o ho => ?_, fun o ho r => ?_⟩
  · have hnot := fun hdb => h.notMem_loadedNames hq hsafe ho hdb
    have hplain : ∀ name ∈ loadedNames ((s.processes q).databases dbPath),
        ':' ∉ name.toList := fun name hmem =>
      (indexed_of_mem_loadedNames (h.tracked q dbPath) hsafe.2 hmem).2
    refine ((h.unknown o ho).rebuild p (fun name hmem => ?_) fun hdb hmem => ?_).rebuild p
      (fun name hmem => ?_) fun hdb hmem => ?_
    · exact hplain name (mem_append_left _ hmem)
    · exact hnot hdb (mem_append_left _ hmem)
    · exact hplain name (mem_append_right _ hmem)
    · exact hnot hdb (mem_append_right _ hmem)
  · exact (h.settling o ho r).of_keeps (refl _ o) (fun _ hm _ _ => hm)
      (fun _ hm _ _ => hm) (fun _ hm _ _ => hm)

theorem Inv.restore (hsafe : s.SafeLoad dbPath q) (hstep : s.restore dbPath q p = some s') : s'.Inv := by
  obtain ⟨hq, hstep⟩ := ite_none_right_eq_some.mp hstep
  cases hstep
  have htracked : ((s.processes p).restore dbPath ((s.processes q).databases dbPath)).Tracked :=
    h.tracked p
  refine h.of_keeps htracked (fun o ho => ⟨fun hnow => ?_, id, id⟩) rfl rfl rfl (fun _ hm => hm) rfl
  refine (hasLocal_restore (fun name hmem => ?_) hnow).resolve_right ?_
  · exact (indexed_of_mem_loadedNames (h.tracked q dbPath) hsafe.2 hmem).2
  rintro ⟨hdb, hmem⟩
  exact h.notMem_loadedNames hq.1 hsafe ho hdb hmem

/-! ### Runs -/

theorem Inv.step {a : ClusterStep n} (hsafe : s.Safe a) (hstep : s.step a = some s') : s'.Inv := by
  cases a with
  | write p w inTask adds removes => exact h.write hsafe hstep
  | writeBack p inTask adds removes =>
    obtain ⟨-, hstep⟩ := ite_none_right_eq_some.mp hstep
    obtain ⟨process, hback, rfl⟩ := map_eq_some_iff.mp hstep
    exact h.writeBack hback
  | endTask p dbPath =>
    obtain ⟨-, hstep⟩ := ite_none_right_eq_some.mp hstep
    cases hstep
    have htracked := h.tracked p
    exact h.of_keeps (htracked.setWriters _ (htracked _).1.markWriteEnd (htracked _).2.markWriteEnd)
      (fun o _ => (s.processes p).keeps_markWriteEnd dbPath o) rfl rfl rfl (fun _ hm => hm) rfl
  | remove p object =>
    obtain ⟨-, hstep⟩ := ite_none_right_eq_some.mp hstep
    cases hstep
    exact h.of_keeps (tracked_removeObject (h.tracked p) object)
      (fun o _ => (s.processes p).keeps_removeObject object o) rfl rfl rfl
      (fun _ hm => mem_append_left _ hm) rfl
  | handle i frozen => exact h.handle hsafe hstep
  | receive i => exact h.receive hsafe hstep
  | connect q =>
    obtain ⟨-, hstep⟩ := ite_none_right_eq_some.mp hstep
    cases hstep
    exact ⟨h.tracked, h.unknown, fun o ho r => (h.settling o ho r).of_keeps (refl _ o)
      (fun _ hm _ _ => hm) (fun _ hm _ _ => hm) (fun _ hm _ _ => hm)⟩
  | disconnect q => exact h.disconnect hsafe hstep
  | die q => exact h.die hsafe hstep
  | rebuild dbPath writer worker => exact h.rebuild hsafe hstep
  | restore dbPath writer p => exact h.restore hsafe hstep

end Cluster

/-- **Removal is final.**  In every run whose steps are all safe, once nothing is under way a removed object
is gone from the tables of the master and from every local index, until it is written anew; loading index
files is one of the steps. -/
theorem removal_final {n : ℕ} {steps : List (ClusterStep n)} {s : Cluster n}
    (h : run step {} steps = some s)
    (hsafe : ∀ pre a post t, steps = pre ++ a :: post → run step {} pre = some t → t.Safe a) :
    s.Final := by
  have hinv : s.Inv :=
    run_safe (I := Inv) (fun _ _ _ ht hsafe hstep => ht.step hsafe hstep) inv_empty hsafe h
  exact hinv.final

/-! ### Runs of two workers -/

theorem work_ne_empty : "/work" ≠ "" := by decide

def mesh : ObjectName := ⟨"/work", "mesh", work_ne_empty, by decide⟩

def meshWrite (route : Route) : ObjectWrite := ⟨mesh, "h1", ⟨1, 0, 8, 1, "host"⟩, route, by decide⟩

def gridWrite : ObjectWrite :=
  ⟨⟨"/work", "grid", work_ne_empty, by decide⟩, "h2", ⟨1, 8, 8, 1, "host"⟩, .queued, by decide⟩

def writesMesh : List (ClusterStep 2) :=
  [.connect 1, .connect 2, .write 1 (meshWrite .queued) false [] [], .handle 0 false, .receive 0,
    .writeBack 1 false [("mesh", [(meshWrite .queued).entry])] []]

/-- Worker 2 removes it: its request is handled, and what the master sends is delivered. -/
def removesMesh : List (ClusterStep 2) := [.remove 2 mesh, .handle 0 false, .receive 0, .receive 0]

/-- Worker 1 writes another object, and with it the removal. -/
def savesRemoval : List (ClusterStep 2) :=
  [.write 1 gridWrite false [] [], .handle 0 false, .receive 0,
    .writeBack 1 false [("grid", [gridWrite.entry])] ["mesh"]]

theorem removal_final_saved :
    ∃ s, run step {} (writesMesh ++ removesMesh ++ savesRemoval ++ [.rebuild "/work" 1 1]) = some s ∧
      s.Quiet ∧ s.Removed mesh ∧ s.Gone mesh := by
  have hchecks : checks step (fun s a => decide (s.Safe a)) {}
      (writesMesh ++ removesMesh ++ savesRemoval ++ [.rebuild "/work" 1 1]) = true := rfl
  have hrun : ∃ s, run step {} (writesMesh ++ removesMesh ++ savesRemoval ++
      [.rebuild "/work" 1 1]) = some s ∧ s.Quiet ∧ s.Removed mesh :=
    ⟨_, rfl, ⟨rfl, rfl⟩, [.accepted mesh], [.accepted gridWrite.object], rfl, by decide⟩
  obtain ⟨s, hrun, hquiet, hremoved⟩ := hrun
  have hfinal : s.Final := removal_final hrun fun pre a post t hsplit ht =>
    of_decide_eq_true (safe_of_checks hchecks hsplit ht)
  exact ⟨s, hrun, hquiet, hremoved, hfinal hquiet mesh hremoved⟩

/-- The removal is lost if the index file is loaded before the next write; if the copy is a temporary object
of another worker; and if the holder is not connected when the master removes the object. -/
theorem removal_not_final :
    (∃ s, run step {} (writesMesh ++ removesMesh ++ [.rebuild "/work" 1 1]) = some s ∧
      s.Quiet ∧ s.Removed mesh ∧ ¬s.Gone mesh) ∧
    (∃ s, run step {} ([.connect 1, .connect 2,
        .write 1 (meshWrite .temporary) false [("mesh", [(meshWrite .temporary).entry])] [],
        .handle 0 false, .receive 0] ++ removesMesh ++ [.rebuild "/work" 1 1]) = some s ∧
      s.Quiet ∧ s.Removed mesh ∧ ¬s.Gone mesh) ∧
    ∃ s, run step {} (writesMesh ++
        [.disconnect 1, .remove 2 mesh, .handle 0 false, .receive 0, .connect 1]) = some s ∧
      s.Quiet ∧ s.Removed mesh ∧ ¬s.Gone mesh :=
  ⟨⟨_, rfl, ⟨rfl, rfl⟩, ⟨[.accepted mesh], [], rfl, not_mem_nil⟩, fun h => absurd h.tables (by decide)⟩,
    ⟨_, rfl, ⟨rfl, rfl⟩, ⟨[.accepted mesh], [], rfl, not_mem_nil⟩, fun h => absurd h.tables (by decide)⟩,
    ⟨_, rfl, ⟨rfl, rfl⟩, ⟨[.accepted mesh], [], rfl, not_mem_nil⟩,
      fun h => absurd (h.localIdx 1) (some_ne_none _)⟩⟩

end Fly.Agent
