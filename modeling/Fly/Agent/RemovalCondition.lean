import Fly.Agent.RemovalEffects

/-!
# When a removal is final

Once the master has acknowledged a removal and nothing is under way any more, the object should be gone
everywhere, also after index files are loaded again, until it is written anew.

* `MasterRequest.Registers`, `MasterAnswer.Clears`, `MasterAnswer.Commands`, `MasterAnswer.Queues` — what a
  message under way means for an object;
* `Removed`, `Final` — the property;
* `Safe` — what a step has to meet: a removal reaches every copy, and no copy is loaded from a file that
  does not know of the removal yet.
-/

namespace Fly.Agent

open Fly.Lib Fly.Storage MasterAnswer MasterRequest

/-! ### Messages about an object -/

instance (t : ObjectTables) (o : ObjectName) : Decidable (t.Unknown o) :=
  inferInstanceAs (Decidable (_ ∧ _))

namespace MasterRequest

variable (o : ObjectName)

/-- A write of the object that stands in the local index already. -/
def Registers : MasterRequest → Prop
  | writeRegister w => w.object = o ∧ w.route ≠ .permission
  | removeRequest _ => False

/-- A write of the object that stands in an index already. -/
def RegistersIndexed : MasterRequest → Prop
  | writeRegister w => w.object = o ∧ (w.route = .streamed ∨ w.route = .temporary)
  | removeRequest _ => False

instance : DecidablePred (Registers o) := fun request => by
  cases request <;> (dsimp only [Registers]; infer_instance)

instance : DecidablePred (RegistersIndexed o) := fun request => by
  cases request <;> (dsimp only [RegistersIndexed]; infer_instance)

/-- A stream whose object the master does not know. -/
def IndexedUnknown (t : ObjectTables) : MasterRequest → Prop
  | writeRegister w => t.Unknown w.object ∧ (w.route = .streamed ∨ w.route = .temporary)
  | removeRequest _ => False

instance (t : ObjectTables) : DecidablePred (IndexedUnknown t) := fun request => by
  cases request <;> (dsimp only [IndexedUnknown]; infer_instance)

variable {o}

theorem RegistersIndexed.registers : {r : MasterRequest} → r.RegistersIndexed o → r.Registers o
  | writeRegister w, h => by
    refine ⟨h.1, fun hroute => ?_⟩
    rcases h.2 with h | h <;> rw [hroute] at h <;> cases h

end MasterRequest

namespace MasterAnswer

variable (o : ObjectName)

def Commands : MasterAnswer → Prop
  | removeCommand object => object = o
  | _ => False

def Clears : MasterAnswer → Prop
  | registered _ => False
  | refused w => w.object = o ∧ w.route ≠ .permission
  | removeAck object _ => object = o
  | removeCommand object => object = o

/-- A write of the object is handed to the write-back queue. -/
def Queues : MasterAnswer → Prop
  | registered w => w.object = o ∧ w.route = .queued
  | _ => False

instance : DecidablePred (Commands o) := fun answer => by
  cases answer <;> (dsimp only [Commands]; infer_instance)

instance : DecidablePred (Clears o) := fun answer => by
  cases answer <;> (dsimp only [Clears]; infer_instance)

instance : DecidablePred (Queues o) := fun answer => by
  cases answer <;> (dsimp only [Queues]; infer_instance)

/-- A command, whatever the object. -/
def isCommand : MasterAnswer → Bool
  | removeCommand _ => true
  | _ => false

variable {o}

theorem Commands.clears : {a : MasterAnswer} → a.Commands o → a.Clears o
  | removeCommand _, h => h

theorem Commands.isCommand : {a : MasterAnswer} → a.Commands o → a.isCommand
  | removeCommand _, _ => rfl

/-- A call whose answer is lost clears the local index just the same. -/
theorem Clears.timeOut {a : MasterAnswer} (h : a.Clears o) (hcommand : a.isCommand = false) :
    ∃ answer, a.timeOut = some answer ∧ answer.Clears o := by
  cases a with
  | registered w => exact h.elim
  | refused | removeAck => exact ⟨_, rfl, h⟩
  | removeCommand object => cases hcommand

theorem not_queues_of_timeOut {a answer : MasterAnswer} (h : a.timeOut = some answer) :
    ¬answer.Queues o := by
  cases a <;> cases h
  all_goals exact id

end MasterAnswer

theorem MasterRequest.Registers.timeOut {o : ObjectName} {r : MasterRequest} (h : r.Registers o) :
    r.timeOut.Clears o := by
  cases r with
  | writeRegister w => exact h
  | removeRequest object => exact h.elim

theorem MasterRequest.not_queues_timeOut (o : ObjectName) (r : MasterRequest) : ¬r.timeOut.Queues o := by
  cases r <;> exact id

namespace Cluster

variable {n : ℕ} (s : Cluster n)

def Asks (q : Fin (n + 1)) (P : MasterRequest → Prop) : Prop :=
  ∃ m ∈ s.requests, m.1 = q ∧ P m.2

def Gets (q : Fin (n + 1)) (P : MasterAnswer → Prop) : Prop :=
  ∃ m ∈ s.answers, m.1 = q ∧ P m.2

instance (q : Fin (n + 1)) (P : MasterRequest → Prop) [DecidablePred P] :
    Decidable (s.Asks q P) := inferInstanceAs (Decidable (∃ m ∈ _, _))

instance (q : Fin (n + 1)) (P : MasterAnswer → Prop) [DecidablePred P] :
    Decidable (s.Gets q P) := inferInstanceAs (Decidable (∃ m ∈ _, _))

/-! ### The property -/

/-- The master has removed the object, and accepted no write of it since. -/
def Removed (o : ObjectName) : Prop :=
  ∃ pre post, s.history = pre ++ .removed o :: post ∧ .accepted o ∉ post

/-- Neither the master nor a process knows the object. -/
structure Gone (s : Cluster n) (o : ObjectName) : Prop where
  tables : s.tables.Unknown o
  localIdx : ∀ q, (s.processes q).localIdx.lookup (splitFullName o.full) = none

/-- Nothing is under way. -/
def Quiet : Prop := s.requests = [] ∧ s.answers = []

instance : Decidable s.Quiet := inferInstanceAs (Decidable (_ ∧ _))

def Final : Prop := s.Quiet → ∀ o, s.Removed o → s.Gone o

/-! ### The condition -/

/-- A command for the object is under way to the worker, or will be sent now. -/
def Reached (q : Fin (n + 1)) (o : ObjectName) : Prop :=
  s.Gets q (Commands o) ∨ s.connected q = true ∧ (q : ℕ) ∈ s.tables.getRemoteWorkers o

instance (q : Fin (n + 1)) (o : ObjectName) : Decidable (s.Reached q o) :=
  inferInstanceAs (Decidable (_ ∨ _))

/-- A removal asked for by `p` reaches every worker that has the object in its local index, in one of its
indexes, or about to be written; a write whose registration is under way is decided later. -/
def ReachesCopies (p : Fin (n + 1)) (o : ObjectName) : Prop :=
  ∀ q, q ≠ master → (q ≠ p → (s.processes q).HasLocal o →
      s.Asks q (Registers o) ∨ s.Gets q (Clears o) ∨ s.Reached q o) ∧
    ((s.processes q).Indexed o → s.Asks q (RegistersIndexed o) ∨ s.Reached q o) ∧
    ((s.processes q).Queued o ∨ s.Gets q (Queues o) → s.Reached q o)

instance (p : Fin (n + 1)) (o : ObjectName) : Decidable (s.ReachesCopies p o) :=
  inferInstanceAs (Decidable (∀ _, _))

/-- No command is lost with the worker, nor the registration of a stream whose object the master does not
know. -/
def LosesNothing (q : Fin (n + 1)) : Prop :=
  (∀ m ∈ s.answers, m.1 = q → m.2.isCommand = false) ∧
    ∀ m ∈ s.requests, m.1 = q → ¬m.2.IndexedUnknown s.tables

instance (q : Fin (n + 1)) : Decidable (s.LosesNothing q) :=
  inferInstanceAs (Decidable (_ ∧ _))

/-- A removal reaches every copy, and a stream whose object the master does not know is not refused. -/
def SafeRequest (p : Fin (n + 1)) (frozen : Bool) : MasterRequest → Prop
  | .writeRegister w => (writeRegister w).IndexedUnknown s.tables → frozen = false
  | .removeRequest o => s.ReachesCopies p o

/-- A command comes to a worker that has no temporary copy and no write of the object in progress. -/
def SafeAnswer (q : Fin (n + 1)) : MasterAnswer → Prop
  | .removeCommand o =>
    ¬((s.processes q).databases o.dbPath).tempWriter.Indexed o.shortName ∧ ¬(s.processes q).Queued o ∧
      ¬s.Gets q (Queues o)
  | _ => True

/-- Index files are loaded when nothing is under way and their writer has saved its removals. -/
def SafeLoad (dbPath : String) (writer : Fin (n + 1)) : Prop :=
  s.Quiet ∧ ((s.processes writer).databases dbPath).Saved

instance (p : Fin (n + 1)) (frozen : Bool) : DecidablePred (s.SafeRequest p frozen) := fun request => by
  cases request <;> (dsimp only [SafeRequest]; infer_instance)

instance (q : Fin (n + 1)) : DecidablePred (s.SafeAnswer q) := fun answer => by
  cases answer <;> (dsimp only [SafeAnswer]; infer_instance)

instance (dbPath : String) (writer : Fin (n + 1)) : Decidable (s.SafeLoad dbPath writer) :=
  inferInstanceAs (Decidable (_ ∧ _))

def Safe : ClusterStep n → Prop
  -- an object that the master does not know is written where there is no copy of it
  | .write p w _ _ _ => p ≠ master → s.tables.Unknown w.object →
      (s.processes p).localIdx.hasLocalObject (splitFullName w.object.full) = false ∧
        ¬(s.processes p).Indexed w.object
  | .handle i frozen => ∀ m ∈ s.requests[i]?, s.SafeRequest m.1 frozen m.2
  | .receive i => ∀ m ∈ s.answers[i]?, s.SafeAnswer m.1 m.2
  | .disconnect q | .die q => s.LosesNothing q
  | .rebuild dbPath writer _ | .restore dbPath writer _ => s.SafeLoad dbPath writer
  | .writeBack .. | .endTask .. | .remove .. | .connect _ => True

instance : DecidablePred s.Safe := fun op => by
  cases op <;> (dsimp only [Safe]; infer_instance)

end Cluster

end Fly.Agent
