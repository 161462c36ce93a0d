import Fly.Lib.Frames
import Fly.Lib.Segments
import Fly.Lib.Table

/-!
# The index file of a data writer

A data writer keeps the index of its objects in a file of its own, an operation log: records that add
or remove the entries of an object, and the marks of write segments.  The index in memory is rebuilt
by replaying the file, which a crash may have cut off anywhere.

* `IdxOpType`, `writeHeader`, `framing` — the layout: one byte for the operation and seven for the
  length of the body, then the encoded `AddRecord` (nothing for a mark);
* `Replay`, `load` — what the replay keeps and does with each record, and the whole of `load`, with
  its branch for a file in the old format;
* `committedEntries` — what a log stands for when its segments are transactions;
* `load_take_encodeAll` — replaying a file that was cut at any byte is replaying the records before the
  cut;
* `replay_eq_committedEntries_iff` — the replay of a log and of all that is left of it by a cut agrees
  with `committedEntries` **iff** no record inside a segment removes an object that was visible before
  the segment: `REMOVE` is the one record that the replay does not hold back until the segment ends.

Names and entries are parameters: the index looks at an entry only to see whose it is.
-/

namespace Fly.Storage

open Fly.Lib List Table Option

variable {ν ε : Type}

/-! ### Records and their layout -/

inductive IdxOpType where
  | add
  | remove
  | beginSegment
  | endSegment
  | abortSegment
  deriving DecidableEq, Repr

namespace IdxOpType

def code : IdxOpType → UInt8
  | add => 1
  | remove => 2
  | beginSegment => 3
  | endSegment => 4
  | abortSegment => 5

/-- The operation with a code; the replay skips records of any other code. -/
def ofCode (b : UInt8) : Option IdxOpType :=
  [add, remove, beginSegment, endSegment, abortSegment].find? fun op => op.code = b

theorem ofCode_code (op : IdxOpType) : ofCode op.code = some op := by
  cases op <;> rfl

end IdxOpType

open IdxOpType

/-- The body of a data record; `append_remove` leaves the entries empty. -/
structure AddRecord (ν ε : Type) where
  objectName : ν
  entries : List ε
  deriving DecidableEq, Repr

/-- The serialization the index relies on: what was encoded is decoded again. -/
structure IndexCodec (ν ε : Type) where
  encode : AddRecord ν ε → Bytes
  decode : Bytes → Option (AddRecord ν ε)
  decode_encode : ∀ r, decode (encode r) = some r
  /-- the whole index as the old format stores it -/
  decodeIndexData : Bytes → Option (Table ν (List ε))

/-- What a data record does to the index. -/
inductive Change (ν ε : Type) where
  | add (name : ν) (entries : List ε)
  | remove (name : ν)
  deriving DecidableEq, Repr

abbrev IndexRecord (ν ε : Type) := LogEntry (Change ν ε)

def IndexRecord.op : IndexRecord ν ε → IdxOpType
  | .data (.add _ _) => .add
  | .data (.remove _) => .remove
  | .beginSegment => .beginSegment
  | .endSegment => .endSegment
  | .abortSegment => .abortSegment

variable (c : IndexCodec ν ε)

def IndexRecord.body : IndexRecord ν ε → Bytes
  | .data (.add name entries) => c.encode ⟨name, entries⟩
  | .data (.remove name) => c.encode ⟨name, []⟩
  | _ => []

def writeHeader (op : IdxOpType) (bodySize : ℕ) : Bytes := op.code :: toLE 7 bodySize

/-- The layout of the file, as `write_header` writes it and `read_header` reads it. -/
def framing : Framing (IndexRecord ν ε) where
  headerSize := 8
  headerSize_pos := by decide
  header r := writeHeader r.op (r.body c).length
  body r := r.body c
  bodySize header := ofLE header.tail
  length_header r := by rw [writeHeader, List.length_cons, length_toLE]

/-- The record with this header and body; none if the operation is unknown or the body of a data
record cannot be decoded, and the loop then goes on unchanged. -/
def decodeRecord (header body : Bytes) : Option (IndexRecord ν ε) :=
  match ofCode (header.headD 0) with
  | some .add => (c.decode body).map fun r => .data (.add r.objectName r.entries)
  | some .remove => (c.decode body).map fun r => .data (.remove r.objectName)
  | some .beginSegment => some .beginSegment
  | some .endSegment => some .endSegment
  | some .abortSegment => some .abortSegment
  | none => none

theorem decodeRecord_framing (r : IndexRecord ν ε) :
    decodeRecord c ((framing c).header r) ((framing c).body r) = some r := by
  have hop : ofCode (((framing c).header r).headD 0) = some r.op :=
    ofCode_code r.op
  rw [decodeRecord, hop]
  rcases r with (⟨name, entries⟩ | name) | _ | _ | _
  · have hbody : c.decode ((framing c).body (.data (.add name entries))) = some ⟨name, entries⟩ :=
      c.decode_encode ⟨name, entries⟩
    simp only [IndexRecord.op, hbody, map_some]
  · have hbody : c.decode ((framing c).body (.data (.remove name))) = some ⟨name, []⟩ :=
      c.decode_encode ⟨name, []⟩
    simp only [IndexRecord.op, hbody, map_some]
  all_goals rfl

/-! ### Replay -/

variable [DecidableEq ν] {log : List (IndexRecord ν ε)}

/-- What the loop of `load` keeps. -/
structure Replay (ν ε : Type) where
  entries : Table ν (List ε) := ∅
  pending : Table ν (List ε) := ∅
  inSegment : Bool := false

open Replay

/-- One record of the log, as the loop of `load` treats it. -/
def Replay.apply (s : Replay ν ε) : IndexRecord ν ε → Replay ν ε
  | .data (.add name entries) =>
    if s.inSegment then { s with pending := s.pending.insert name entries }
    else { s with entries := s.entries.insert name entries }
  -- a removal is not held back in a segment: both tables lose the object at once
  | .data (.remove name) =>
    { s with entries := s.entries.erase name, pending := s.pending.erase name }
  | .beginSegment => { s with inSegment := true, pending := ∅ }
  | .endSegment => { entries := s.pending ∪ s.entries, pending := ∅, inSegment := false }
  | .abortSegment => { s with pending := ∅, inSegment := false }

/-- The old format: eight bytes with the length of the encoded index, then the index. -/
def loadLegacy (c : IndexCodec ν ε) (file : Bytes) : Table ν (List ε) :=
  let size := ofLE (file.take 8)
  -- the length is read into a signed number: from `2 ^ 63` on it is negative
  if 0 < size ∧ size < 2 ^ 63 ∧ 8 + size ≤ file.length then
    (c.decodeIndexData ((file.drop 8).take size)).getD ∅
  else ∅

def load (c : IndexCodec ν ε) (file : Bytes) : Table ν (List ε) :=
  match file.head? with
  | none => ∅
  | some first =>
    if (ofCode first).isSome then
      let records := ((framing c).split file).filterMap fun f => decodeRecord c f.1 f.2
      (records.foldl apply {}).entries
    else loadLegacy c file

/-- **A cut file replays the records before the cut.** -/
theorem load_take_encodeAll {c : IndexCodec ν ε} (hsized : ∀ r ∈ log, (r.body c).length < 256 ^ 7) (k : ℕ) :
    load c (((framing c).encodeAll log).take k) =
      (((framing c).fitting log k).foldl apply {}).entries := by
  have hsplit := Framing.split_take_encodeAll (F := framing c) (fun r hr => ofLE_toLE_of_lt (hsized r hr)) k
  have hrecords : (((framing c).split (((framing c).encodeAll log).take k)).filterMap fun f =>
      decodeRecord c f.1 f.2) = (framing c).fitting log k := by
    rw [hsplit, filterMap_map]
    simp [decodeRecord_framing]
  have hnew : ∀ first, (((framing c).encodeAll log).take k).head? = some first →
      (ofCode first).isSome := by
    intro first hfirst
    cases log with
    | nil => simp [Framing.encodeAll] at hfirst
    | cons r rest =>
      cases k with
      | zero => simp at hfirst
      | succ k =>
        have hop : r.op.code = first := Option.some.inj hfirst
        rw [← hop, ofCode_code]
        rfl
  unfold load
  cases hhead : (((framing c).encodeAll log).take k).head? with
  | some first => simp only [hnew first hhead, if_true, hrecords]
  | none =>
    -- nothing is left of the file: no record lies before the cut either
    have hempty := List.head?_eq_none_iff.mp hhead
    rw [hempty] at hrecords
    rw [← hrecords]
    rfl

/-! ### Segments as transactions -/

def applyChange (entries : Table ν (List ε)) : Change ν ε → Table ν (List ε)
  | .add name es => entries.insert name es
  | .remove name => entries.erase name

/-- What a log stands for: its committed records, applied in order. -/
def committedEntries (log : List (IndexRecord ν ε)) : Table ν (List ε) :=
  (committed log).foldl applyChange ∅

/-- No record inside a segment removes an object that is visible without the segment. -/
def NoVisibleRemoval (log : List (IndexRecord ν ε)) : Prop :=
  ∀ pre name post, log = pre ++ .data (.remove name) :: post → InSegment pre →
    (committedEntries pre).lookup name = none

/-- The replay follows the scan of the log: its entries are the committed ones, and its pending table
holds what the records of the open segment change. -/
structure Follows (t : Scan (Change ν ε)) (s : Replay ν ε) : Prop where
  entries : ∀ n, s.entries.lookup n = (t.kept.foldl applyChange ∅).lookup n
  inSegment : s.inSegment = t.segment.isSome
  pending : ∀ n, ((t.segment.getD []).foldl applyChange (t.kept.foldl applyChange ∅)).lookup n =
    (s.pending.lookup n).or (s.entries.lookup n)
  outside : t.segment = none → s.pending = ∅

namespace Follows

variable {t : Scan (Change ν ε)} {s : Replay ν ε} {records : List (Change ν ε)}

theorem empty : Follows (ν := ν) (ε := ε) ⟨[], none⟩ {} where
  entries _ := rfl
  inSegment := rfl
  pending _ := rfl
  outside _ := rfl

/-- Where nothing is pending, only the entries and the flag matter. -/
theorem of_no_pending (hpending : s.pending = ∅)
    (hentries : ∀ n, s.entries.lookup n = (t.kept.foldl applyChange ∅).lookup n)
    (hinside : s.inSegment = t.segment.isSome) (hrecords : t.segment.getD [] = []) :
    Follows t s where
  entries := hentries
  inSegment := hinside
  pending n := by
    rw [hrecords, hpending, hentries]
    rfl
  outside _ := hpending

/-- A record outside any segment takes effect at once, in the log and in the replay. -/
theorem data_outside (h : Follows t s) (hsegment : t.segment = none) (change : Change ν ε) :
    Follows (t.step (.data change)) (s.apply (.data change)) := by
  have hflag : s.inSegment = false := by rw [h.inSegment, hsegment]; rfl
  have hpending := h.outside hsegment
  have hstep : t.step (.data change) = ⟨t.kept ++ [change], none⟩ := by rw [Scan.step, hsegment]
  rw [hstep]
  cases change with
  | add name es =>
    have happly : s.apply (.data (.add name es)) = { s with entries := s.entries.insert name es } := by
      simp [apply, hflag]
    rw [happly]
    refine of_no_pending hpending (fun n => ?_) hflag rfl
    rw [foldl_append, foldl_cons, foldl_nil, applyChange, lookup_insert_eq, lookup_insert_eq, h.entries]
  | remove name =>
    refine of_no_pending ?_ (fun n => ?_) hflag rfl
    · rw [apply, hpending]
      rfl
    · rw [apply, foldl_append, foldl_cons, foldl_nil, applyChange,
        lookup_erase_eq, lookup_erase_eq, h.entries]

/-- A record inside a segment is pending; so is a removal, as far as the segment's own additions go.  Of an
object that is visible without the segment it is not: this is where the condition is needed. -/
theorem data_inside (h : Follows t s) (hsegment : t.segment = some records) {change : Change ν ε}
    (hsafe : ∀ name, change = .remove name → (t.kept.foldl applyChange ∅).lookup name = none) :
    Follows (t.step (.data change)) (s.apply (.data change)) := by
  have hflag : s.inSegment = true := by rw [h.inSegment, hsegment]; rfl
  have hstep : t.step (.data change) = ⟨t.kept, some (records ++ [change])⟩ := by
    rw [Scan.step, hsegment]
  have hbefore := h.pending
  rw [hsegment] at hbefore
  rw [hstep]
  cases change with
  | add name es =>
    have happly : s.apply (.data (.add name es)) = { s with pending := s.pending.insert name es } := by
      simp [apply, hflag]
    rw [happly]
    refine ⟨h.entries, hflag, fun n => ?_, fun hnone => by cases hnone⟩
    rw [getD_some, foldl_append, foldl_cons, foldl_nil, applyChange, lookup_insert_eq, lookup_insert_eq]
    split
    · rfl
    · exact hbefore n
  | remove name =>
    have hname := hsafe name rfl
    have hentries : ∀ n, (s.entries.erase name).lookup n = s.entries.lookup n := by
      intro n
      rw [lookup_erase_eq]
      split
      · next heq => rw [heq, h.entries, hname]
      · rfl
    refine ⟨fun n => (hentries n).trans (h.entries n), hflag, fun n => ?_, fun hnone => by cases hnone⟩
    rw [getD_some, foldl_append, foldl_cons, foldl_nil, applyChange]
    simp only [apply, hentries, lookup_erase_eq]
    split
    · next heq => rw [heq, h.entries, hname]; rfl
    · exact hbefore n

theorem endSegment (h : Follows t s) : Follows (t.step .endSegment) (s.apply .endSegment) := by
  refine of_no_pending rfl (fun n => ?_) rfl rfl
  rw [Scan.step, foldl_append, h.pending]
  exact lookup_union s.pending s.entries n

/-- **One record.**  The replay keeps following the log unless the record removes a visible object
from inside a segment. -/
theorem step (h : Follows t s) {r : IndexRecord ν ε}
    (hsafe : ∀ name, r = .data (.remove name) → t.segment.isSome →
      (t.kept.foldl applyChange ∅).lookup name = none) : Follows (t.step r) (s.apply r) := by
  cases r with
  | data change =>
    cases hsegment : t.segment with
    | none => exact h.data_outside hsegment change
    | some records =>
      exact h.data_inside hsegment fun name hchange => hsafe name (by rw [hchange]) (by rw [hsegment]; rfl)
  | beginSegment | abortSegment => exact of_no_pending rfl h.entries rfl rfl
  | endSegment => exact h.endSegment

end Follows

theorem NoVisibleRemoval.of_append {pre post : List (IndexRecord ν ε)}
    (h : NoVisibleRemoval (pre ++ post)) : NoVisibleRemoval pre := by
  intro front name back hsplit hinside
  exact h front name (back ++ post) (by rw [hsplit]; simp) hinside

/-- **A whole log.**  Without such removals the replay follows the log to its end. -/
theorem follows_of_noVisibleRemoval (h : NoVisibleRemoval log) :
    Follows (scan log) (log.foldl apply {}) := by
  induction log using List.reverseRecOn with
  | nil => exact Follows.empty
  | append_singleton log r ih =>
    rw [scan_concat, foldl_append]
    refine (ih h.of_append).step fun name hr hinside => ?_
    exact h log name [] (by rw [hr]) hinside

/-- The replay of every front part of a log agrees with its committed entries **iff** no record inside
a segment removes an object that is visible without the segment. -/
theorem replay_eq_committedEntries_iff (log : List (IndexRecord ν ε)) : (∀ pre, pre <+: log → ∀ n,
      (pre.foldl apply {}).entries.lookup n = (committedEntries pre).lookup n) ↔
      NoVisibleRemoval log := by
  constructor
  · intro hagree pre name post hsplit hinside
    -- right behind the removal the replay has lost the object, while the segment is still open
    have hnow := hagree (pre ++ [.data (.remove name)]) ⟨post, by rw [hsplit]; simp⟩ name
    rw [committedEntries, committed_concat_data hinside, foldl_append] at hnow
    rw [committedEntries, ← hnow]
    exact AList.lookup_erase _ _
  · rintro hsafe pre ⟨post, rfl⟩ n
    exact (follows_of_noVisibleRemoval hsafe.of_append).entries n

/-! ### The last word on an object -/

def Change.name : Change ν ε → ν
  | .add name _ => name
  | .remove name => name

omit [DecidableEq ν] in
@[simp] theorem Change.name_add (name : ν) (entries : List ε) : (Change.add name entries).name = name := rfl

/-- The last change of an object in a list. -/
def lastChange (changes : List (Change ν ε)) (name : ν) : Option (Change ν ε) :=
  changes.reverse.find? fun change => change.name = name

theorem lastChange_concat (changes : List (Change ν ε)) (change : Change ν ε) (name : ν) :
    lastChange (changes ++ [change]) name =
      if change.name = name then some change else lastChange changes name := by
  by_cases h : change.name = name <;> simp [h, lastChange]

/-- What a list of changes makes of an object is decided by the last of them that is about it. -/
theorem lookup_foldl_applyChange (changes : List (Change ν ε)) (entries : Table ν (List ε)) (name : ν) :
    (changes.foldl applyChange entries).lookup name = match lastChange changes name with
      | some (.add _ added) => some added
      | some (.remove _) => none
      | none => entries.lookup name := by
  induction changes using List.reverseRecOn with
  | nil => rfl
  | append_singleton changes change ih =>
    rw [foldl_append, foldl_cons, foldl_nil, lastChange_concat]
    rcases change with ⟨other, added⟩ | other
    · by_cases h : name = other
      · simp [applyChange, lookup_insert_eq, Change.name, h]
      · simpa [applyChange, lookup_insert_eq, Change.name, h, Ne.symm h] using ih
    · by_cases h : name = other
      · simp [applyChange, lookup_erase_eq, Change.name, h]
      · simpa [applyChange, lookup_erase_eq, Change.name, h, Ne.symm h] using ih

end Fly.Storage
