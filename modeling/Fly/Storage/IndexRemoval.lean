import Fly.Storage.Database

/-!
# What an index file still says of a removed object

`remove_entry` takes an object out of the memory of the index; its file hears of it at the next `save`.
Between the two a `load` of the file still gives the object.

* `Indexed` — the object is in the memory of the index;
* `Mentions` — the replay of a file has the object, committed or in the open segment;
* `Tracked` — the invariant: what the file mentions is in memory, or its removal waits for a `save`; each
  operation on the index keeps it.
-/

namespace Fly.Storage

open Fly.Lib LocalIndex Replay Table LogEntry

/-- Committed, or in the open segment. -/
def Replay.Mentions (r : Replay String IndexEntry) (name : String) : Prop :=
  (r.entries.lookup name).isSome ∨ (r.pending.lookup name).isSome

theorem Replay.mentions_add (r : Replay String IndexEntry) (a name : String) (entries : List IndexEntry) :
    (r.apply (.data (.add a entries))).Mentions name → name = a ∨ r.Mentions name := by
  intro h
  by_cases hname : name = a
  · exact .inl hname
  · refine .inr ?_
    rw [apply] at h
    split at h
    all_goals simpa only [Mentions, lookup_insert_eq, if_neg hname] using h

/-- The records of a `save`: nothing is mentioned afterwards that was removed, or that was neither
mentioned before nor added. -/
theorem Replay.mentions_savedChanges (adds : List (String × List IndexEntry)) (removes : List String)
    (r : Replay String IndexEntry) (name : String)
    (h : (((savedChanges adds removes).map data).foldl apply r).Mentions name) :
    name ∉ removes ∧ (r.Mentions name ∨ name ∈ adds.map Prod.fst) := by
  induction adds generalizing r with
  | nil =>
    have hbatch : (savedChanges ([] : List (String × List IndexEntry)) removes).map
        data = removes.map fun name => data (Change.remove name) := by
      simp [savedChanges]
    rw [hbatch] at h
    obtain ⟨-, hentries, hpending⟩ := Database.replay_removes removes r
    rw [Mentions, hentries, hpending] at h
    by_cases hmem : name ∈ removes
    · simp only [if_pos hmem, Option.isSome_none, Bool.false_eq_true, or_self] at h
    · rw [if_neg hmem, if_neg hmem] at h
      exact ⟨hmem, .inl h⟩
  | cons first adds ih =>
    obtain ⟨hnot, hbefore⟩ := ih (r.apply (.data (.add first.1 first.2))) h
    refine ⟨hnot, ?_⟩
    rcases hbefore with hbefore | hadded
    · rcases r.mentions_add first.1 name first.2 hbefore with rfl | hbefore
      · exact .inr List.mem_cons_self
      · exact .inl hbefore
    · exact .inr (List.mem_cons_of_mem _ hadded)

namespace Database

variable (d : Database) (name : String)

/-- The object is in the memory of the index. -/
def Indexed : Prop := (d.index.entries.lookup name).isSome

instance : Decidable (d.Indexed name) :=
  inferInstanceAs (Decidable (_ = true))

/-- No removal waits for a `save`. -/
def Saved : Prop := d.index.pendingRemoves = ∅

instance : Decidable d.Saved := inferInstanceAs (Decidable (_ = _))

structure Tracked (d : Database) : Prop where
  pendingAdds : ∀ name, (d.index.pendingAdds.lookup name).isSome → d.Indexed name
  file : ∀ name, d.replay.Mentions name → d.Indexed name ∨ name ∈ d.index.pendingRemoves
  plain : ∀ name, d.Indexed name → ':' ∉ name.toList

theorem tracked_empty : Tracked {} where
  pendingAdds _ h := absurd h (by simp)
  file name h := by
    rcases h with h | h
    all_goals exact absurd h (by simp [replay])
  plain _ h := absurd h (by simp [Indexed])

variable {d} {d' : Database} {entry : IndexEntry} {adds : List (String × List IndexEntry)}
  {removes : List String}

/-! ### Removals -/

theorem indexed_removeEntry (d : Database) (a name : String) :
    (d.removeEntry a).Indexed name ↔ name ≠ a ∧ d.Indexed name := by
  unfold removeEntry LocalIndex.removeEntry Indexed
  split
  · next hnone =>
    refine ⟨fun h => ⟨?_, h⟩, fun h => h.2⟩
    rintro rfl
    rw [Option.isNone_iff_eq_none.mp hnone] at h
    cases h
  · rw [lookup_erase_eq]
    by_cases hname : name = a <;> simp [hname]

theorem Tracked.removeEntry (h : d.Tracked) (a : String) : (d.removeEntry a).Tracked := by
  have hindex := d.indexed_removeEntry a
  have hreplay := d.replay_removeEntry a
  refine ⟨fun name hadded => ?_, fun name hmentioned => ?_, fun name hindexed => ?_⟩
  · rw [hindex]
    unfold Database.removeEntry LocalIndex.removeEntry at hadded
    split at hadded
    · next hnone =>
      have hindexed := h.pendingAdds name hadded
      refine ⟨?_, hindexed⟩
      rintro rfl
      rw [Indexed, Option.isNone_iff_eq_none.mp hnone] at hindexed
      cases hindexed
    · have herased : (AList.lookup name (d.index.pendingAdds.erase a)).isSome = true := hadded
      rw [lookup_erase_eq] at herased
      by_cases hname : name = a
      · rw [if_pos hname] at herased
        cases herased
      · rw [if_neg hname] at herased
        exact ⟨hname, h.pendingAdds name herased⟩
  · rw [hreplay] at hmentioned
    rw [hindex]
    have hbefore := h.file name hmentioned
    unfold Database.removeEntry LocalIndex.removeEntry
    split
    · next hnone =>
      refine hbefore.imp_left fun hindexed => ⟨?_, hindexed⟩
      rintro rfl
      rw [Indexed, Option.isNone_iff_eq_none.mp hnone] at hindexed
      cases hindexed
    · rw [Finset.mem_insert]
      by_cases hname : name = a
      · exact .inr (.inl hname)
      · exact hbefore.imp (fun hindexed => ⟨hname, hindexed⟩) .inr
  · exact h.plain name ((hindex name).mp hindexed).2

/-! ### Additions -/

theorem indexed_addAndFlush (h : d.addAndFlush entry adds removes = some d') (name : String) :
    d'.Indexed name ↔ name = entry.objectName ∨ d.Indexed name := by
  obtain ⟨index, hsave, rfl⟩ := Option.map_eq_some_iff.mp h
  show (Option.isSome (AList.lookup name index.entries)) = true ↔ _
  rw [entries_of_save hsave]
  show (Option.isSome (AList.lookup name
    (upsert d.index.entries entry.objectName [] (· ++ [entry])))) = true ↔ _
  rw [lookup_upsert]
  by_cases hname : name = entry.objectName <;> simp [hname, Indexed]

theorem Tracked.addAndFlush (h : d.Tracked)
    (hplain : ':' ∉ entry.objectName.toList) (hflush : d.addAndFlush entry adds removes = some d') :
    d'.Tracked := by
  have hindex := indexed_addAndFlush hflush
  obtain ⟨index, hsave, rfl⟩ := Option.map_eq_some_iff.mp hflush
  obtain ⟨hadds, hremoves, rfl⟩ := of_save rfl hsave
  refine ⟨fun name hadded => ?_, fun name hmentioned => ?_, fun name hindexed => ?_⟩
  · exact absurd hadded (by simp)
  · refine .inl ((hindex name).mpr ?_)
    have hreplay : Mentions (((savedChanges adds removes).map data).foldl apply d.replay) name := by
      have happend := hmentioned
      unfold replay at happend
      rwa [List.foldl_append] at happend
    obtain ⟨hnot, hbefore⟩ := mentions_savedChanges adds removes d.replay name hreplay
    by_cases hname : name = entry.objectName
    · exact .inl hname
    refine .inr ?_
    rcases hbefore with hbefore | hadded
    · refine (h.file name hbefore).resolve_right fun hpending => hnot ?_
      rw [← List.mem_toFinset, hremoves]
      exact Finset.mem_erase.mpr ⟨hname, hpending⟩
    · obtain ⟨⟨a, entries⟩, hmem, rfl⟩ := List.mem_map.mp hadded
      have hlookup := Table.mem_pairs.mp (hadds.mem_iff.mp hmem)
      have hupsert : AList.lookup a
          (upsert d.index.pendingAdds entry.objectName [] (· ++ [entry])) = some entries := hlookup
      rw [lookup_upsert, if_neg hname] at hupsert
      exact h.pendingAdds a (by rw [hupsert]; rfl)
  · rcases (hindex name).mp hindexed with rfl | hindexed
    · exact hplain
    · exact h.plain name hindexed

/-! ### Marks -/

theorem Tracked.markWriteEnd (h : d.Tracked) : d.markWriteEnd.Tracked where
  pendingAdds := h.pendingAdds
  file name hmentioned := by
    refine h.file name ?_
    rw [replay_markWriteEnd] at hmentioned
    rcases hmentioned with hentries | hpending
    · rw [lookup_union] at hentries
      cases hlookup : d.replay.pending.lookup name with
      | none =>
        rw [hlookup] at hentries
        exact .inl hentries
      | some entries => exact .inr (by rw [hlookup]; rfl)
    · exact absurd hpending (by simp)
  plain := h.plain

theorem Tracked.openSegment (h : d.Tracked) : d.openSegment.Tracked := by
  unfold Database.openSegment
  split
  · exact h
  refine ⟨h.pendingAdds, fun name hmentioned => h.file name ?_, h.plain⟩
  rw [replay_markWriteBegin] at hmentioned
  rcases hmentioned with hentries | hpending
  · exact .inl hentries
  · exact absurd hpending (by simp)

theorem indexed_openSegment (d : Database) (name : String) :
    d.openSegment.Indexed name ↔ d.Indexed name := by
  unfold openSegment
  split <;> exact Iff.rfl

end Database

end Fly.Storage
