import Mathlib.Data.List.Induction

/-!
# Logs with segments

A log holds data records and the marks of segments.  A segment counts as a whole: its records count
once its end mark is in the log, and none of them counts if it is aborted or never closed.  A record
outside any segment counts at once.

* `LogEntry` — data, or one of the three marks;
* `Scan`, `scan` — the records that count so far, and those of the segment that is open;
* `committed` — the records of a log that count, in their order.
-/

namespace Fly.Lib

inductive LogEntry (α : Type*) where
  | data (a : α)
  | beginSegment
  | endSegment
  | abortSegment
  deriving DecidableEq

structure Scan (α : Type*) where
  kept : List α
  /-- the records of the open segment; `none` outside any segment -/
  segment : Option (List α)

namespace Scan

variable {α : Type*}

def step (s : Scan α) : LogEntry α → Scan α
  | .data a =>
    match s.segment with
    | none => ⟨s.kept ++ [a], none⟩
    | some records => ⟨s.kept, some (records ++ [a])⟩
  -- a segment that is still open when the next one begins is never closed
  | .beginSegment => ⟨s.kept, some []⟩
  | .endSegment => ⟨s.kept ++ s.segment.getD [], none⟩
  | .abortSegment => ⟨s.kept, none⟩

end Scan

variable {α : Type*} (log : List (LogEntry α))

def scan : Scan α := log.foldl Scan.step ⟨[], none⟩

/-- The records of a log that count, in their order. -/
def committed : List α := (scan log).kept

/-- A segment is open at the end of the log. -/
def InSegment : Prop := (scan log).segment.isSome

instance : Decidable (InSegment log) :=
  inferInstanceAs (Decidable ((scan log).segment.isSome = true))

theorem scan_concat (e : LogEntry α) : scan (log ++ [e]) = (scan log).step e := by
  rw [scan, List.foldl_append]
  rfl

/-- A record written into an open segment does not count yet. -/
theorem committed_concat_data {log : List (LogEntry α)} (h : InSegment log) (a : α) :
    committed (log ++ [.data a]) = committed log := by
  obtain ⟨records, hrecords⟩ := Option.isSome_iff_exists.mp h
  rw [committed, scan_concat, Scan.step, hrecords, committed]

theorem inSegment_concat_data (a : α) : InSegment (log ++ [.data a]) ↔ InSegment log := by
  rw [InSegment, InSegment, scan_concat, Scan.step]
  cases (scan log).segment <;> rfl

end Fly.Lib
