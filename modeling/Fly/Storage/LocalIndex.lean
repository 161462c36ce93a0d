import Mathlib.Data.Finset.Dedup
import Mathlib.Data.Finset.Insert
import Mathlib.Data.Finset.Erase
import Fly.Lib.Run
import Fly.Storage.IndexLog

/-!
# The index of a data writer

`LocalIndex` holds the entries of the objects a data writer has written, collects the changes since
the last `save`, and appends them to the index file then.  The marks of a segment are appended at once.

* `LocalIndex` — the state, with the records its file holds;
* `addEntry`, `removeEntry`, `findEntry`, `findAllEntries`, `save`, `markBegin`, `markEnd`, `markAbort` —
  the operations; the order in which `save` walks its hash containers is an argument;
* `load_take_file_iff` — after any calls, and for any cut of the file, `load` gives the entries of the
  committed records, **iff** no `save` in an open segment removed an object that was visible.
-/

namespace Fly.Storage

open Fly.Lib List Table

variable {ν ε : Type} [DecidableEq ν]

structure LocalIndex (ν ε : Type) [DecidableEq ν] where
  entries : Table ν (List ε) := ∅
  pendingAdds : Table ν (List ε) := ∅
  pendingRemoves : Finset ν := ∅
  modified : Bool := false
  /-- the records the file holds -/
  log : List (IndexRecord ν ε) := []

namespace LocalIndex

def file (c : IndexCodec ν ε) (s : LocalIndex ν ε) : Bytes := (framing c).encodeAll s.log

def addEntry (objectName : ε → ν) (s : LocalIndex ν ε) (entry : ε) : LocalIndex ν ε :=
  { s with
    entries := upsert s.entries (objectName entry) [] (· ++ [entry])
    pendingAdds := upsert s.pendingAdds (objectName entry) [] (· ++ [entry])
    pendingRemoves := s.pendingRemoves.erase (objectName entry)
    modified := true }

variable (s : LocalIndex ν ε)

/-- The answer is whether the object had entries. -/
def removeEntry (name : ν) : Bool × LocalIndex ν ε :=
  if (s.entries.lookup name).isNone then (false, s)
  else (true,
    { s with
      entries := s.entries.erase name
      pendingRemoves := insert name s.pendingRemoves
      pendingAdds := s.pendingAdds.erase name
      modified := true })

/-- The first entry of an object. -/
def findEntry (name : ν) : Option ε := (s.entries.lookup name).bind head?

def findAllEntries (name : ν) : Option (List ε) := s.entries.lookup name

/-- The data records of a `save`: all additions, then all removals. -/
def savedChanges (adds : List (ν × List ε)) (removes : List ν) : List (Change ν ε) :=
  adds.map (fun (name, entries) => .add name entries) ++ removes.map .remove

/-- Append the changes since the last call.  `adds` and `removes` are the collected changes in the
order in which their hash containers are walked; there is no next state for anything else. -/
def save [DecidableEq ε] (s : LocalIndex ν ε) (adds : List (ν × List ε)) (removes : List ν) :
    Option (LocalIndex ν ε) :=
  if s.modified then
    if adds.Perm (pairs s.pendingAdds) ∧ removes.Nodup ∧
        removes.toFinset = s.pendingRemoves then
      some { s with
        pendingAdds := ∅
        pendingRemoves := ∅
        modified := false
        log := s.log ++ (savedChanges adds removes).map .data }
    else none
  else some s

variable {s} {s' : LocalIndex ν ε} {adds : List (ν × List ε)} {removes : List ν}

/-- What a save with something to write does. -/
theorem of_save [DecidableEq ε] (hmodified : s.modified) (h : s.save adds removes = some s') :
    adds.Perm (pairs s.pendingAdds) ∧ removes.toFinset = s.pendingRemoves ∧
      s' = { s with
        pendingAdds := ∅
        pendingRemoves := ∅
        modified := false
        log := s.log ++ (savedChanges adds removes).map .data } := by
  rw [save, if_pos hmodified] at h
  split at h
  · next hwalk =>
    cases h
    exact ⟨hwalk.1, hwalk.2.2, rfl⟩
  · cases h

/-- Saving leaves the entries alone. -/
theorem entries_of_save [DecidableEq ε] (h : s.save adds removes = some s') : s'.entries = s.entries := by
  unfold save at h
  split at h
  · split at h
    · cases h
      rfl
    · cases h
  · cases h
    rfl

variable (s)

def markBegin : LocalIndex ν ε := { s with log := s.log ++ [.beginSegment] }

def markEnd : LocalIndex ν ε := { s with log := s.log ++ [.endSegment] }

def markAbort : LocalIndex ν ε := { s with log := s.log ++ [.abortSegment] }

inductive Call (ν ε : Type) where
  | addEntry (entry : ε)
  | removeEntry (name : ν)
  | save (adds : List (ν × List ε)) (removes : List ν)
  | markBegin
  | markEnd
  | markAbort

def step [DecidableEq ε] (objectName : ε → ν) (s : LocalIndex ν ε) : Call ν ε → Option (LocalIndex ν ε)
  | .addEntry entry => some (s.addEntry objectName entry)
  | .removeEntry name => some (s.removeEntry name).2
  | .save adds removes => s.save adds removes
  | .markBegin => some s.markBegin
  | .markEnd => some s.markEnd
  | .markAbort => some s.markAbort

/-- A call that writes no removal of a visible object into an open segment. -/
def SafeCall (s : LocalIndex ν ε) : Call ν ε → Prop
  | .save _ removes => s.modified → InSegment s.log →
      ∀ name ∈ removes, (committedEntries s.log).lookup name = none
  | _ => True

end LocalIndex

/-! ### What a batch of records removes -/

theorem noVisibleRemoval_concat_iff (log : List (IndexRecord ν ε)) (r : IndexRecord ν ε) :
    NoVisibleRemoval (log ++ [r]) ↔
      NoVisibleRemoval log ∧ ∀ name, r = .data (.remove name) → InSegment log →
        (committedEntries log).lookup name = none := by
  constructor
  · intro h
    exact ⟨h.of_append, fun name hr hinside => h log name [] (by rw [hr]) hinside⟩
  · rintro ⟨hlog, hlast⟩ pre name post hsplit hinside
    rcases concat_eq_append_cons_iff.mp hsplit with ⟨rfl, hr, -⟩ | ⟨post', -, hfront⟩
    · exact hlast name hr.symm hinside
    · exact hlog pre name post' hfront hinside

/-- A batch: inside a segment none of its records counts yet, so all of them are judged by what was
visible before. -/
theorem noVisibleRemoval_append_data_iff (log : List (IndexRecord ν ε)) (batch : List (Change ν ε)) :
    NoVisibleRemoval (log ++ batch.map .data) ↔
      NoVisibleRemoval log ∧ (InSegment log → ∀ name, Change.remove name ∈ batch →
        (committedEntries log).lookup name = none) := by
  induction batch generalizing log with
  | nil => simp
  | cons change batch ih =>
    have hsplit : log ++ (change :: batch).map .data = (log ++ [.data change]) ++ batch.map .data := by simp
    have hsame : InSegment log → committedEntries (log ++ [.data change]) = committedEntries log := by
      intro hinside
      rw [committedEntries, committed_concat_data hinside, committedEntries]
    rw [hsplit, ih, noVisibleRemoval_concat_iff, inSegment_concat_data, and_assoc]
    refine and_congr_right fun _ => ?_
    constructor
    · rintro ⟨hfirst, hrest⟩ hinside name hmem
      rcases mem_cons.mp hmem with hname | hmem
      · exact hfirst name (by rw [hname]) hinside
      · exact hsame hinside ▸ hrest hinside name hmem
    · intro hall
      refine ⟨fun name hname hinside => ?_, fun hinside name hmem => ?_⟩
      · cases hname
        exact hall hinside name mem_cons_self
      · rw [hsame hinside]
        exact hall hinside name (mem_cons_of_mem _ hmem)

namespace LocalIndex

variable [DecidableEq ε]

theorem noVisibleRemoval_step_iff {objectName : ε → ν} {s s' : LocalIndex ν ε} {call : Call ν ε}
    (h : step objectName s call = some s') :
    NoVisibleRemoval s'.log ↔ NoVisibleRemoval s.log ∧ SafeCall s call := by
  cases call with
  | save adds removes =>
    have hsave : s.save adds removes = some s' := h
    unfold save at hsave
    split at hsave
    · next hmodified =>
      split at hsave
      · cases hsave
        rw [noVisibleRemoval_append_data_iff, SafeCall]
        simp [hmodified, savedChanges]
      · cases hsave
    · next hmodified =>
      cases hsave
      exact (and_iff_left fun hm => absurd hm hmodified).symm
  | addEntry entry =>
    cases h
    exact (and_iff_left trivial).symm
  | removeEntry name =>
    cases h
    have hlog : (s.removeEntry name).2.log = s.log := by
      unfold removeEntry
      split <;> rfl
    rw [hlog]
    exact (and_iff_left trivial).symm
  | markBegin | markEnd | markAbort =>
    cases h
    -- a mark removes nothing
    exact ((noVisibleRemoval_concat_iff _ _).trans (and_iff_left (by simp))).trans (and_iff_left trivial).symm

/-- **Replaying the index file is transactional exactly when no `save` in an open segment removes a
visible object.**  For all calls on a fresh index and every cut of the file they wrote. -/
theorem load_take_file_iff (c : IndexCodec ν ε) (objectName : ε → ν) {calls : List (Call ν ε)}
    {s : LocalIndex ν ε} (hrun : run (step objectName) {} calls = some s)
    (hsized : ∀ r ∈ s.log, (r.body c).length < 256 ^ 7) :
    (∀ k name, (load c ((s.file c).take k)).lookup name =
      (committedEntries ((framing c).fitting s.log k)).lookup name) ↔
    ∀ pre call post t, calls = pre ++ call :: post → run (step objectName) {} pre = some t →
      SafeCall t call := by
  have hempty : NoVisibleRemoval ({} : LocalIndex ν ε).log := by
    intro pre name post hsplit
    exact absurd hsplit.symm (by simp)
  have hstep : ∀ (t : LocalIndex ν ε) call t', step objectName t call = some t' →
      (NoVisibleRemoval t'.log ↔ NoVisibleRemoval t.log ∧ SafeCall t call) :=
    fun _ _ _ => noVisibleRemoval_step_iff
  rw [← run_good_iff_safe hstep hempty hrun, ← replay_eq_committedEntries_iff,
    ← Framing.forall_fitting_iff (framing c)]
  simp only [file, load_take_encodeAll hsized]

/-- A serialization for objects whose names and entries are bytes. -/
def byteCodec : IndexCodec UInt8 UInt8 where
  encode r := r.objectName :: r.entries
  decode
    | [] => none
    | name :: entries => some ⟨name, entries⟩
  decode_encode _ := rfl
  decodeIndexData _ := none

/-- An object is added; a segment adds another and removes it again. -/
def segmentCalls : List (Call UInt8 UInt8) :=
  [.addEntry 7, .save [(7, [7])] [], .markBegin, .addEntry 8, .save [(8, [8])] [],
    .removeEntry 8, .save [] [8], .markEnd]

theorem load_take_file_segmentCalls : ∃ s, run (step id) {} segmentCalls = some s ∧
      ((∀ k name, (load byteCodec ((s.file byteCodec).take k)).lookup name =
        (committedEntries ((framing byteCodec).fitting s.log k)).lookup name) ↔
      ∀ pre call post t, segmentCalls = pre ++ call :: post →
        run (step id) {} pre = some t → SafeCall t call) :=
  ⟨_, rfl, load_take_file_iff byteCodec id rfl (by decide)⟩

/-- An object is added; a segment removes it and is aborted. -/
def abortedRemoval : List (Call UInt8 UInt8) :=
  [.addEntry 7, .save [(7, [7])] [], .markBegin, .removeEntry 7, .save [] [7], .markAbort]

/-- The removal of the aborted segment takes effect: the object is gone after `load`. -/
theorem load_file_abortedRemoval : ∃ s, run (step id) {} abortedRemoval = some s ∧
      (load byteCodec (s.file byteCodec)).lookup 7 = none ∧
      (committedEntries s.log).lookup 7 = some [7] :=
  ⟨_, rfl, by decide, by decide⟩

end LocalIndex

end Fly.Storage
