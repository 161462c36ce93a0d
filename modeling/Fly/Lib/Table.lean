import Mathlib.Data.List.AList
import Mathlib.Data.List.Sort

/-!
# Finite tables and sorted sets

The two containers every component of the development is built on.

* `Table K V` — a finite map: Mathlib's `AList` at a constant family, so that a key occurs at most
  once by construction.  Its operations are `lookup`, `insert` (overwrite) and `erase`; this file adds
  the in-place updates `modify` (only an existing entry changes) and `upsert` (a missing entry is
  default-constructed first), `filterValues`, and one equation per operation that says what `lookup` sees
  afterwards.
* `SortedSet α` — a finite set held as a strictly increasing list, the order being part of the value.
  Iterating it is reading `toList`, so a traversal order is fixed and computable.

Everything computes by structural recursion, so closed terms evaluate in the kernel.
-/

namespace Fly.Lib

open List Option AList Prod

/-! ### Tables -/

/-- A finite map from `K` to `V`, with no repeated key. -/
abbrev Table (K V : Type) := AList (fun _ : K => V)

namespace Table

variable {K V : Type} [DecidableEq K] {s : Table K V} {k : K} {v : V}

theorem lookup_insert_eq (s : Table K V) (a : K) (b : V) (k : K) :
    (s.insert a b).lookup k = if k = a then some b else s.lookup k := by
  by_cases h : k = a
  · subst h
    simp
  · rw [if_neg h, lookup_insert_ne h]

theorem lookup_erase_eq (s : Table K V) (a k : K) :
    (s.erase a).lookup k = if k = a then none else s.lookup k := by
  by_cases h : k = a
  · subst h
    simp
  · rw [if_neg h, lookup_erase_ne h]

theorem lookup_insert_eq_some {a : K} {b : V} :
    (s.insert a b).lookup k = some v ↔ (k = a ∧ b = v) ∨ (k ≠ a ∧ s.lookup k = some v) := by
  rw [lookup_insert_eq]
  by_cases h : k = a <;> simp [h]

theorem lookup_erase_eq_some {a : K} :
    (s.erase a).lookup k = some v ↔ k ≠ a ∧ s.lookup k = some v := by
  rw [lookup_erase_eq, ite_none_left_eq_some]

/-- A union: the first table wins. -/
theorem lookup_union (s t : Table K V) (k : K) : (s ∪ t).lookup k = (s.lookup k).or (t.lookup k) := by
  by_cases h : k ∈ s
  · obtain ⟨v, hv⟩ := isSome_iff_exists.mp (lookup_isSome.mpr h)
    rw [lookup_union_left h, hv, some_or]
  · rw [lookup_union_right h, lookup_eq_none.mpr h, none_or]

/-- The entries as pairs, in the order of the table. -/
def pairs (s : Table K V) : List (K × V) := s.entries.map fun e => (e.1, e.2)

theorem mem_pairs : (k, v) ∈ pairs s ↔ s.lookup k = some v := by
  have hentry : (⟨k, v⟩ : Sigma fun _ : K => V) ∈ s.entries ↔ s.lookup k = some v :=
    mem_lookup_iff.symm
  rw [pairs, List.mem_map, ← hentry]
  constructor
  · rintro ⟨⟨a, b⟩, he, heq⟩
    cases heq
    exact he
  · intro he
    exact ⟨_, he, rfl⟩

/-- Entries put in one after the other; of two entries of one key the later stays. -/
def insertAll (s : Table K V) (es : List (K × V)) : Table K V :=
  es.foldl (fun s e => s.insert e.1 e.2) s

variable {es : List (K × V)}

theorem lookup_insertAll_of_notMem (h : k ∉ es.map fst) (s : Table K V) :
    (insertAll s es).lookup k = s.lookup k := by
  induction es generalizing s with
  | nil => rfl
  | cons e es ih =>
    rw [map_cons, mem_cons, not_or] at h
    show (insertAll (s.insert e.1 e.2) es).lookup k = s.lookup k
    rw [ih h.2, lookup_insert_ne h.1]

theorem lookup_insertAll_of_mem (hnodup : (es.map fst).Nodup)
    (h : (k, v) ∈ es) (s : Table K V) : (insertAll s es).lookup k = some v := by
  induction es generalizing s with
  | nil => cases h
  | cons e es ih =>
    rw [map_cons, nodup_cons] at hnodup
    show (insertAll (s.insert e.1 e.2) es).lookup k = some v
    rcases mem_cons.mp h with rfl | hmem
    · rw [lookup_insertAll_of_notMem hnodup.1, lookup_insert]
    · exact ih hnodup.2 hmem (s.insert e.1 e.2)

theorem lookup_insertAll (h : (insertAll s es).lookup k = some v) : s.lookup k = some v ∨ (k, v) ∈ es := by
  induction es generalizing s with
  | nil => exact .inl h
  | cons e es ih =>
    rcases ih (s := s.insert e.1 e.2) h with hk | hmem
    · rcases lookup_insert_eq_some.mp hk with ⟨rfl, rfl⟩ | ⟨-, hk⟩
      · exact .inr mem_cons_self
      · exact .inl hk
    · exact .inr (mem_cons_of_mem e hmem)

theorem forall_pairs_insertAll {P : K × V → Prop} (hs : ∀ e ∈ pairs s, P e) (hes : ∀ e ∈ es, P e) :
    ∀ e ∈ pairs (insertAll s es), P e := by
  intro e he
  rcases lookup_insertAll (mem_pairs.mp he) with hold | hnew
  · exact hs e (mem_pairs.mpr hold)
  · exact hes e hnew

theorem forall_pairs_insert {P : K × V → Prop} (hs : ∀ e ∈ pairs s, P e) (h : P (k, v)) :
    ∀ e ∈ pairs (s.insert k v), P e :=
  show ∀ e ∈ pairs (insertAll s [(k, v)]), P e from forall_pairs_insertAll hs (forall_mem_singleton.mpr h)

omit [DecidableEq K] in
theorem nodup_pairs (s : Table K V) : ((pairs s).map fst).Nodup := by
  have hkeys : (pairs s).map fst = s.keys := by
    rw [pairs, List.map_map]
    rfl
  rw [hkeys]
  exact s.keys_nodup

/-- A table whose keys are renamed one by one, none of them to the same key. -/
theorem lookup_rekey (g : K → K)
    (hg : ∀ k k' v v', s.lookup k = some v → s.lookup k' = some v' → g k = g k' → k = k') {c : K} :
    (insertAll ∅ ((pairs s).map fun e => (g e.1, e.2))).lookup c = some v ↔
      ∃ k, g k = c ∧ s.lookup k = some v := by
  constructor
  · intro h
    rcases lookup_insertAll h with h | h
    · cases h
    · obtain ⟨⟨k, w⟩, hk, heq⟩ := mem_map.mp h
      cases heq
      exact ⟨k, rfl, mem_pairs.mp hk⟩
  · rintro ⟨k, rfl, hk⟩
    have hmem : (g k, v) ∈ (pairs s).map fun e => (g e.1, e.2) :=
      mem_map.mpr ⟨(k, v), mem_pairs.mpr hk, rfl⟩
    refine lookup_insertAll_of_mem ?_ hmem ∅
    rw [List.map_map]
    have hnodup : (pairs s).Nodup := List.Nodup.of_map fst (nodup_pairs s)
    refine hnodup.map_on ?_
    rintro ⟨a, va⟩ ha ⟨b, vb⟩ hb heq
    obtain rfl := hg a b va vb (mem_pairs.mp ha) (mem_pairs.mp hb) heq
    rw [some.inj ((mem_pairs.mp ha).symm.trans (mem_pairs.mp hb))]

/-- The entries of one table put into another: the entry put in wins. -/
theorem lookup_insertAll_pairs (s t : Table K V) (k : K) :
    (insertAll t (pairs s)).lookup k = (s.lookup k).or (t.lookup k) := by
  cases hk : s.lookup k with
  | some v => exact lookup_insertAll_of_mem (nodup_pairs s) (mem_pairs.mpr hk) t
  | none =>
    apply lookup_insertAll_of_notMem
    intro hmem
    obtain ⟨e, he, rfl⟩ := mem_map.mp hmem
    rw [mem_pairs.mp he] at hk
    cases hk

variable (s)

/-- Apply `f` to the entry of `k`; a missing key stays missing. -/
def modify (k : K) (f : V → V) : Table K V :=
  match s.lookup k with
  | some v => s.insert k (f v)
  | none => s

theorem lookup_modify (a : K) (f : V → V) (k : K) :
    (modify s a f).lookup k = if k = a then (s.lookup a).map f else s.lookup k := by
  unfold modify
  cases h : s.lookup a with
  | some v => simp only [lookup_insert_eq, map_some]
  | none =>
    by_cases hk : k = a
    · subst hk
      simp [h]
    · rw [if_neg hk]

theorem isSome_lookup_modify (a : K) (f : V → V) (k : K) :
    ((modify s a f).lookup k).isSome = (s.lookup k).isSome := by
  rw [lookup_modify]
  split
  · next h => rw [h, isSome_map]
  · rfl

/-- Apply `f` to the entry of `k`, after creating it from `d` when it is missing. -/
def upsert (k : K) (d : V) (f : V → V) : Table K V :=
  s.insert k (f ((s.lookup k).getD d))

theorem lookup_upsert (a : K) (d : V) (f : V → V) (k : K) :
    (upsert s a d f).lookup k = if k = a then some (f ((s.lookup a).getD d)) else s.lookup k :=
  lookup_insert_eq s a _ k

def mapValues (f : V → V) : Table K V where
  entries := s.entries.map fun e => ⟨e.1, f e.2⟩
  nodupKeys := by
    have hkeys : (s.entries.map fun e => (⟨e.1, f e.2⟩ : Sigma fun _ : K => V)).keys =
        s.entries.keys := by
      simp [List.keys, Function.comp_def]
    rw [List.NodupKeys, hkeys]
    exact s.nodupKeys

theorem lookup_mapValues (f : V → V) (k : K) : (mapValues s f).lookup k = (s.lookup k).map f := by
  show (s.entries.map fun e => (⟨e.1, f e.2⟩ : Sigma fun _ : K => V)).dlookup k =
    (s.entries.dlookup k).map f
  induction s.entries with
  | nil => rfl
  | cons e rest ih =>
    obtain ⟨a, b⟩ := e
    by_cases h : k = a
    · subst h
      simp
    · rw [map_cons, dlookup_cons_ne _ _ h, dlookup_cons_ne _ _ h, ih]

/-- Keep the entries whose values pass a test. -/
def filterValues (p : V → Bool) : Table K V where
  entries := s.entries.filter fun e => p e.2
  nodupKeys := s.nodupKeys.sublist filter_sublist

theorem lookup_filterValues (p : V → Bool) (k : K) : (filterValues s p).lookup k = (s.lookup k).filter p := by
  refine ext fun v => ?_
  rw [filter_eq_some_iff]
  show v ∈ (filterValues s p).lookup k ↔ v ∈ s.lookup k ∧ p v = true
  rw [mem_lookup_iff, mem_lookup_iff]
  exact mem_filter

end Table

/-! ### Sorted sets -/

/-- A finite set of a linear order, held as its strictly increasing list of members. -/
structure SortedSet (α : Type) [LinearOrder α] where
  toList : List α
  sorted : toList.Pairwise (· < ·)
  deriving DecidableEq

namespace SortedSet

variable {α : Type} [LinearOrder α] {a : α} {s : SortedSet α}

instance : Membership α (SortedSet α) := ⟨fun s a => a ∈ s.toList⟩

instance (a : α) (s : SortedSet α) : Decidable (a ∈ s) :=
  inferInstanceAs (Decidable (a ∈ s.toList))

theorem mem_toList : a ∈ s.toList ↔ a ∈ s := Iff.rfl

def empty : SortedSet α := ⟨[], List.Pairwise.nil⟩

instance : EmptyCollection (SortedSet α) := ⟨empty⟩

instance : Inhabited (SortedSet α) := ⟨empty⟩

@[simp] theorem notMem_empty (a : α) : a ∉ (∅ : SortedSet α) := not_mem_nil

theorem pairwise_orderedInsert {l : List α} (hl : l.Pairwise (· < ·)) (ha : a ∉ l) :
    (l.orderedInsert (· ≤ ·) a).Pairwise (· < ·) := by
  have hle : l.Pairwise (· ≤ ·) := hl.imp le_of_lt
  have hord : (l.orderedInsert (· ≤ ·) a).Pairwise (· ≤ ·) := hle.orderedInsert a l
  have hnodup : (l.orderedInsert (· ≤ ·) a).Nodup := by
    rw [(perm_orderedInsert (· ≤ ·) a l).nodup_iff, nodup_cons]
    exact ⟨ha, hl.imp ne_of_lt⟩
  exact hord.imp₂ (fun _ _ h hne => lt_of_le_of_ne h hne) hnodup

/-- Insert a member; inserting a member that is already there changes nothing. -/
def insert (s : SortedSet α) (a : α) : SortedSet α :=
  if h : a ∈ s.toList then s
  else ⟨s.toList.orderedInsert (· ≤ ·) a, pairwise_orderedInsert s.sorted h⟩

@[simp] theorem mem_insert {b : α} : b ∈ s.insert a ↔ b = a ∨ b ∈ s := by
  unfold insert
  split
  case isTrue h =>
    constructor
    · exact .inr
    · rintro (rfl | hb)
      · exact h
      · exact hb
  case isFalse h => exact mem_orderedInsert (· ≤ ·)

def erase (s : SortedSet α) (a : α) : SortedSet α :=
  ⟨s.toList.filter (· ≠ a), s.sorted.filter _⟩

@[simp] theorem mem_erase {b : α} : b ∈ s.erase a ↔ b ≠ a ∧ b ∈ s := by
  rw [← mem_toList, erase, mem_filter, and_comm]
  simp [mem_toList]

def card (s : SortedSet α) : ℕ := s.toList.length

theorem nodup (s : SortedSet α) : s.toList.Nodup := s.sorted.imp ne_of_lt

end SortedSet

end Fly.Lib
