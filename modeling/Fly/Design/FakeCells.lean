import Fly.Lib.Table

/-!
# Fake cells

An instance of a cell that the design does not have gets a fake cell `block::master`, with an id of the
parsing task: a hash of the block name, counted on.  `ds_merge_block_build` brings the fake cells of one
DEF file after the other into the table of the design, and moves an id whose place is taken.

* `resolve`, `parse` — the cell ids of the instances of a DEF file;
* `mergeFake`, `mergeBlockBuild`, `mergeAll` — the fake cells on their way into the table;
* `Fits` — a product whose moved ids stay clear of the ids that are still to be placed;
* `masters_kept` — in a run of such merges, every instance keeps its master.
-/

namespace Fly.Design

open Fly.Lib List Table

/-! ### The table of cells -/

/-- The names of the cells by their ids; an empty name is a free place. -/
abbrev CellNames := List String

namespace CellNames

variable (t : CellNames)

def nameAt (id : ℕ) : String := t.getD id ""

/-- `cell_names_.get_id`; free places are not registered. -/
def getId (name : String) : Option ℕ := if name = "" then none else t.idxOf? name

/-- The table is made long enough, with free places. -/
def addCellAt (id : ℕ) (name : String) : CellNames :=
  (t ++ List.replicate (id + 1 - t.length) "").set id name

/-- The first free place from `id` on. -/
def nextFree (id : ℕ) : ℕ := id + (t.drop id).findIdx (· = "")

variable {t} {id i : ℕ} {name : String}

theorem nameAt_addCellAt : (t.addCellAt id name).nameAt i = if i = id then name else t.nameAt i := by
  simp only [nameAt, addCellAt, getD_eq_getElem?_getD, List.getElem?_set, length_append, length_replicate]
  by_cases hi : id = i
  · rw [if_pos hi, if_pos (by omega), if_pos hi.symm]
    rfl
  rw [if_neg hi, if_neg (Ne.symm hi), List.getElem?_append]
  split
  · rfl
  · rw [List.getElem?_eq_none (l := t) (by omega), List.getElem?_replicate]
    split <;> rfl

theorem nameAt_nextFree : t.nameAt (t.nextFree id) = "" := by
  rw [nameAt, nextFree, getD_eq_getElem?_getD, ← List.getElem?_drop]
  by_cases h : (t.drop id).findIdx (· = "") < (t.drop id).length
  · rw [List.getElem?_eq_getElem h]
    simpa using findIdx_getElem (w := h)
  · rw [List.getElem?_eq_none_iff.mpr (by omega)]
    rfl

theorem nextFree_of_free (h : t.nameAt id = "") : t.nextFree id = id := by
  rw [nameAt, getD_eq_getElem?_getD, ← Nat.add_zero id, ← List.getElem?_drop] at h
  rw [nextFree]
  cases hd : t.drop id with
  | nil => rfl
  | cons x xs => simp_all [findIdx_cons]

theorem getElem?_of_nameAt (h : t.nameAt id = name) (hne : name ≠ "") : t[id]? = some name := by
  rw [nameAt, getD_eq_getElem?_getD] at h
  cases hid : t[id]? with
  | none => exact absurd (by simpa [hid] using h.symm) hne
  | some n => simpa [hid] using h

theorem getId_eq_some (h : t.getId name = some id) : t.nameAt id = name ∧ name ≠ "" := by
  rw [getId] at h
  split at h
  · cases h
  · next hne =>
    obtain ⟨hlt, heq, -⟩ := List.idxOf?_eq_some_iff.mp h
    exact ⟨by simpa [nameAt, getD_eq_getElem?_getD, hlt] using heq, hne⟩

theorem getId_eq_none_iff (hne : name ≠ "") : t.getId name = none ↔ ∀ i, t.nameAt i ≠ name := by
  rw [getId, if_neg hne, List.idxOf?_eq_none_iff, mem_iff_getElem?]
  simp only [nameAt, getD_eq_getElem?_getD, not_exists]
  refine forall_congr' fun i => not_congr ⟨fun h => by rw [h]; rfl, fun h => ?_⟩
  cases hi : t[i]? with
  | none => simp [hi, hne.symm] at h
  | some n => simpa [hi] using h

/-- Every place that is taken keeps its name. -/
def Grows (t t' : CellNames) : Prop := ∀ i, t.nameAt i ≠ "" → t'.nameAt i = t.nameAt i

theorem Grows.trans {t t' t'' : CellNames} (h : t.Grows t') (h' : t'.Grows t'') : t.Grows t'' := fun i hi =>
  (h' i (by rwa [h i hi])).trans (h i hi)

theorem Grows.nameAt_eq {t t' : CellNames} (h : t.Grows t') (hi : t.nameAt id = name) (hne : name ≠ "") :
    t'.nameAt id = name := (h id (hi ▸ hne)).trans hi

end CellNames

open CellNames

/-! ### The product of a DEF file -/

/-- The instances with their masters and cell ids, and the fake cells by their names. -/
structure BlockProduct where
  blockName : String
  instances : List (String × ℕ) := []
  fakeCells : List String := []
  fakeNameToId : Table String ℕ := ∅
  perCellCounts : Table ℕ ℕ := ∅

def fnv1a (s : String) : UInt32 :=
  s.toUTF8.toList.foldl (fun hash c => (hash ^^^ c.toUInt32) * 16777619) 2166136261

def fakeCellIdBase (blockName : String) (maxCellId : ℕ) : ℕ :=
  maxCellId + 1 + (fnv1a blockName).toNat % 65536

namespace BlockProduct

variable (p : BlockProduct)

def fakeKey (master : String) : String := p.blockName ++ "::" ++ master

def addInstance (master : String) (cellId : ℕ) : BlockProduct :=
  { p with
    instances := p.instances ++ [(master, cellId)]
    perCellCounts := upsert p.perCellCounts cellId 0 (· + 1) }

def addFake (fakeKey : String) (fakeId : ℕ) : BlockProduct :=
  { p with
    fakeNameToId := p.fakeNameToId.insert fakeKey fakeId
    fakeCells := p.fakeCells ++ [fakeKey] }

/-- `DSCellResolveNode`: a cell of the design, a fake cell of this file, or a new one. -/
def resolve (t : CellNames) (master : String) : BlockProduct :=
  match t.getId master with
  | some cellId => p.addInstance master cellId
  | none =>
    match p.fakeNameToId.lookup (p.fakeKey master) with
    | some cellId => p.addInstance master cellId
    | none =>
      let fakeId := fakeCellIdBase p.blockName t.length + p.fakeCells.length
      (p.addFake (p.fakeKey master) fakeId).addInstance master fakeId

def parse (t : CellNames) (blockName : String) (masters : List String) : BlockProduct :=
  masters.foldl (fun p master => p.resolve t master) { blockName }

/-- The references to `old` go to `new`; the counts are written into a new table one by one. -/
def moveId (fake : String) (old new : ℕ) : BlockProduct :=
  { p with
    instances := p.instances.map fun x => (x.1, if x.2 = old then new else x.2)
    perCellCounts := insertAll ∅ ((pairs p.perCellCounts).map fun e =>
      (if e.1 = old then new else e.1, e.2))
    fakeNameToId := p.fakeNameToId.insert fake new }

end BlockProduct

def mergeFake (s : CellNames × BlockProduct) (fake : String) : CellNames × BlockProduct :=
  if (s.1.getId fake).isSome then s
  else
    match s.2.fakeNameToId.lookup fake with
    | none => s
    | some old =>
      let id := s.1.nextFree old
      (s.1.addCellAt id fake, if id = old then s.2 else s.2.moveId fake old id)

def mergeBlockBuild (t : CellNames) (p : BlockProduct) : CellNames × BlockProduct :=
  p.fakeCells.foldl mergeFake (t, p)

def mergeAll : CellNames → List BlockProduct → CellNames × List BlockProduct
  | t, [] => (t, [])
  | t, p :: ps =>
    let (t', p') := mergeBlockBuild t p
    let (t'', ps') := mergeAll t' ps
    (t'', p' :: ps')

/-- None of the names is in the table, and if the place of one id is taken, so are those of the later
ids: then no id is moved to a place that a later one stands for. -/
def Fits (t : CellNames) (p : BlockProduct) : Prop :=
  (∀ f ∈ p.fakeCells, t.getId f = none) ∧
  p.fakeCells.Pairwise fun f g => ∀ a ∈ p.fakeNameToId.lookup f, ∀ b ∈ p.fakeNameToId.lookup g,
    t.nameAt a ≠ "" → t.nameAt b ≠ ""

def FitsAll : CellNames → List BlockProduct → Prop
  | _, [] => True
  | t, p :: ps => Fits t p ∧ FitsAll (mergeBlockBuild t p).1 ps

/-- The instances of a product refer to the cells they were resolved to, and are counted. -/
structure MastersKept (t₀ t : CellNames) (p : BlockProduct) : Prop where
  real : ∀ x ∈ p.instances, ∀ id, t₀.getId x.1 = some id → x.2 = id ∧ t[id]? = some x.1
  fake : ∀ x ∈ p.instances, t₀.getId x.1 = none → t[x.2]? = some (p.fakeKey x.1)
  counts : ∀ c, (p.perCellCounts.lookup c).getD 0 = p.instances.countP (·.2 = c)

/-! ### Counts -/

namespace BlockProduct

variable {p : BlockProduct} {t₀ : CellNames} {master fake : String} {id old new : ℕ}

def Counted (p : BlockProduct) : Prop := ∀ c n, p.perCellCounts.lookup c = some n ↔
  n ≠ 0 ∧ p.instances.countP (·.2 = c) = n

theorem Counted.getD_eq (h : p.Counted) (c : ℕ) :
    (p.perCellCounts.lookup c).getD 0 = p.instances.countP (·.2 = c) := by
  cases hl : p.perCellCounts.lookup c with
  | some k => exact ((h c k).mp hl).2.symm
  | none =>
    by_contra hne
    have := (h c _).mpr ⟨Ne.symm hne, rfl⟩
    rw [hl] at this
    cases this

theorem counted_addInstance (h : p.Counted) : (p.addInstance master id).Counted := by
  intro c n
  simp only [addInstance, lookup_upsert, countP_append, countP_singleton]
  by_cases hc : c = id
  · subst hc
    simp only [if_true, decide_true, h.getD_eq, Option.some.injEq]
    omega
  · simp [hc, Ne.symm hc, h c n]

theorem counted_moveId (h : p.Counted) (hnew : ∀ x ∈ p.instances, x.2 ≠ new) :
    (p.moveId fake old new).Counted := by
  have hfree : p.perCellCounts.lookup new = none := by
    by_contra hne
    obtain ⟨n, hn⟩ := Option.ne_none_iff_exists'.mp hne
    obtain ⟨hpos, hcount⟩ := (h new n).mp hn
    obtain ⟨x, hx, heq⟩ := countP_pos_iff.mp (show 0 < p.instances.countP (·.2 = new) by omega)
    exact hnew x hx (of_decide_eq_true heq)
  intro c n
  have hlookup : (p.moveId fake old new).perCellCounts.lookup c = some n ↔
      ∃ k, (if k = old then new else k) = c ∧ p.perCellCounts.lookup k = some n := by
    refine lookup_rekey (fun k => if k = old then new else k) fun k k' v v' hk hk' heq => ?_
    grind
  have hcount : (p.moveId fake old new).instances.countP (·.2 = c) =
      p.instances.countP fun x => (if x.2 = old then new else x.2) = c := countP_map ..
  rw [hlookup, hcount]
  by_cases hc : c = new
  · -- only the references that were moved are there
    have hmoved : p.instances.countP (fun x => (if x.2 = old then new else x.2) = c) =
        p.instances.countP (·.2 = old) := by
      refine countP_congr fun x hx => ?_
      have := hnew x hx
      grind
    rw [hmoved, ← h old n]
    refine ⟨?_, fun hold => ⟨old, by simp [hc], hold⟩⟩
    rintro ⟨k, hk, hn⟩
    by_cases hko : k = old
    · exact hko ▸ hn
    · rw [if_neg hko, hc] at hk
      rw [hk, hfree] at hn
      cases hn
  · by_cases hco : c = old
    · have hnone : p.instances.countP (fun x => (if x.2 = old then new else x.2) = c) = 0 :=
        countP_eq_zero.mpr fun x _ => by grind
      rw [hnone]
      refine ⟨?_, fun h0 => absurd h0.2.symm h0.1⟩
      rintro ⟨k, hk, -⟩
      grind
    · have hsame : p.instances.countP (fun x => (if x.2 = old then new else x.2) = c) =
          p.instances.countP (·.2 = c) := countP_congr fun x _ => by grind
      rw [hsame, ← h c n]
      refine ⟨?_, fun hn => ⟨c, if_neg hco, hn⟩⟩
      rintro ⟨k, hk, hn⟩
      grind

/-! ### What parsing leaves -/

/-- Where the ids of the instances come from. -/
structure Resolved (t₀ : CellNames) (p : BlockProduct) : Prop where
  real : ∀ x ∈ p.instances, ∀ id, t₀.getId x.1 = some id → x.2 = id
  fake : ∀ x ∈ p.instances, t₀.getId x.1 = none → p.fakeNameToId.lookup (p.fakeKey x.1) = some x.2
  beyond : ∀ f id, p.fakeNameToId.lookup f = some id → f ≠ "" ∧ t₀.length ≤ id
  injective : ∀ f g id, p.fakeNameToId.lookup f = some id → p.fakeNameToId.lookup g = some id → f = g
  counted : p.Counted

structure Parsed (t₀ : CellNames) (p : BlockProduct) : Prop extends p.Resolved t₀ where
  names : ∀ f, f ∈ p.fakeCells ↔ ∃ id, p.fakeNameToId.lookup f = some id
  nodup : p.fakeCells.Nodup
  bound : ∀ f id, p.fakeNameToId.lookup f = some id →
    id < fakeCellIdBase p.blockName t₀.length + p.fakeCells.length

theorem fakeKey_ne : p.fakeKey master ≠ "" := by
  intro h
  have := congrArg String.length h
  simp [fakeKey] at this

theorem Parsed.addInstance (h : p.Parsed t₀) (hreal : ∀ i, t₀.getId master = some i → id = i)
    (hfake : t₀.getId master = none → p.fakeNameToId.lookup (p.fakeKey master) = some id) :
    (p.addInstance master id).Parsed t₀ where
  real := forall_mem_append.mpr ⟨h.real, forall_mem_singleton.mpr hreal⟩
  fake := forall_mem_append.mpr ⟨h.fake, forall_mem_singleton.mpr hfake⟩
  beyond := h.beyond
  injective := h.injective
  counted := counted_addInstance h.counted
  names := h.names
  nodup := h.nodup
  bound := h.bound

/-- The new id is behind all ids of the file. -/
theorem Parsed.addFake (h : p.Parsed t₀) (hne : fake ≠ "") (hnew : p.fakeNameToId.lookup fake = none) :
    (p.addFake fake (fakeCellIdBase p.blockName t₀.length + p.fakeCells.length)).Parsed t₀ := by
  have hlookup : ∀ f i, (p.fakeNameToId.insert fake
      (fakeCellIdBase p.blockName t₀.length + p.fakeCells.length)).lookup f = some i ↔
      (f = fake ∧ fakeCellIdBase p.blockName t₀.length + p.fakeCells.length = i) ∨
        p.fakeNameToId.lookup f = some i := by
    intro f i
    rw [lookup_insert_eq]
    split
    · next heq =>
      subst heq
      simp [hnew]
    · next hneq => simp [hneq]
  have hbase : t₀.length ≤ fakeCellIdBase p.blockName t₀.length := by
    rw [fakeCellIdBase]
    omega
  refine ⟨⟨h.real, fun x hx hx' => (hlookup _ _).mpr (.inr (h.fake x hx hx')), fun f i hi => ?_,
    fun f g i hf hg => ?_, h.counted⟩, fun f => ?_, ?_, fun f i hi => ?_⟩
  · rcases (hlookup f i).mp hi with ⟨rfl, rfl⟩ | hold
    · exact ⟨hne, by omega⟩
    · exact h.beyond f i hold
  · rcases (hlookup f i).mp hf with ⟨rfl, hi⟩ | hf' <;> rcases (hlookup g i).mp hg with ⟨rfl, hi⟩ | hg'
    · rfl
    · exact absurd (hi ▸ h.bound g _ hg') (Nat.lt_irrefl _)
    · exact absurd (hi ▸ h.bound f _ hf') (Nat.lt_irrefl _)
    · exact h.injective f g i hf' hg'
  · refine mem_append.trans ((or_congr (h.names f) mem_singleton).trans ?_)
    simp only [BlockProduct.addFake, hlookup, exists_or, exists_and_left, exists_eq', and_true]
    exact or_comm
  · refine List.Nodup.append h.nodup (nodup_singleton _) (disjoint_singleton.mpr fun hmem => ?_)
    obtain ⟨i, hi⟩ := (h.names fake).mp hmem
    rw [hnew] at hi
    cases hi
  · have hlen : (p.addFake fake (fakeCellIdBase p.blockName t₀.length +
      p.fakeCells.length)).fakeCells.length = p.fakeCells.length + 1 := length_append
    show i < fakeCellIdBase p.blockName t₀.length + _
    rcases (hlookup f i).mp hi with ⟨-, rfl⟩ | hold
    · omega
    · have := h.bound f i hold
      omega

theorem Parsed.resolve (h : p.Parsed t₀) : (p.resolve t₀ master).Parsed t₀ := by
  rw [BlockProduct.resolve]
  split
  · next cellId hid =>
    exact h.addInstance (fun i hi => Option.some.inj (hid.symm.trans hi)) (by simp [hid])
  rename_i hid
  split
  · next cellId hfake => exact h.addInstance (by simp [hid]) fun _ => hfake
  · next hfake =>
    refine (h.addFake fakeKey_ne hfake).addInstance (by simp [hid]) fun _ => ?_
    exact (lookup_insert_eq ..).trans (if_pos rfl)

theorem parsed_parse (t₀ : CellNames) (blockName : String) (masters : List String) :
    (parse t₀ blockName masters).Parsed t₀ := by
  refine List.foldlRecOn masters _ (motive := fun q => Parsed t₀ q) ?_ fun p hp master _ => hp.resolve
  exact ⟨⟨by simp, by simp, by simp, by simp, fun c n => by simp; omega⟩, by simp, nodup_nil, by simp⟩

/-! ### Merging -/

/-- The product on its way into the table; the fake cells of the list are still to come. -/
structure Merging (t₀ t : CellNames) (rest : List String) (p : BlockProduct) : Prop extends
    p.Resolved t₀ where
  placed : ∀ f id, p.fakeNameToId.lookup f = some id → f ∉ rest → t.nameAt id = f
  waiting : ∀ f ∈ rest, t.getId f = none ∧ ∃ id, p.fakeNameToId.lookup f = some id
  nodup : rest.Nodup
  inOrder : rest.Pairwise fun f g => ∀ a ∈ p.fakeNameToId.lookup f, ∀ b ∈ p.fakeNameToId.lookup g,
    t.nameAt a ≠ "" → t.nameAt b ≠ ""

/-- An id is moved to a place that no other fake cell of the file stands for. -/
theorem Resolved.moveId (h : p.Resolved t₀) (hold : p.fakeNameToId.lookup fake = some old)
    (hnew : ∀ g b, g ≠ fake → p.fakeNameToId.lookup g = some b → b ≠ new) (hlen : t₀.length ≤ new)
    (hmoved : new ≠ old) : (p.moveId fake old new).Resolved t₀ := by
  have hlookup := lookup_insert_eq p.fakeNameToId fake new
  have hreal : ∀ x ∈ p.instances, ∀ i, t₀.getId x.1 = some i → x.2 < t₀.length := by
    intro x hx i hi
    obtain ⟨hname, hne⟩ := getId_eq_some hi
    rw [h.real x hx i hi]
    exact (List.getElem?_eq_some_iff.mp (getElem?_of_nameAt hname hne)).1
  refine ⟨?_, ?_, fun f i hi => ?_, fun f g i hf hg => ?_, ?_⟩
  · refine forall_mem_map.mpr fun x hx i hi => ?_
    have := hreal x hx i hi
    have := (h.beyond _ _ hold).2
    exact (if_neg (by omega)).trans (h.real x hx i hi)
  · refine forall_mem_map.mpr fun x hx hi => (hlookup _).trans ?_
    have hx' := h.fake x hx hi
    by_cases hfake : p.fakeKey x.1 = fake
    · obtain rfl : x.2 = old := Option.some.inj ((hfake ▸ hx').symm.trans hold)
      simp [hfake, show (p.moveId fake x.2 new).fakeKey x.1 = p.fakeKey x.1 from rfl]
    · have hne : x.2 ≠ old := fun heq => hfake (h.injective _ _ _ hx' (heq ▸ hold))
      rw [if_neg (by exact hfake), if_neg hne]
      exact hx'
  · replace hi := (hlookup f).symm.trans hi
    split at hi
    · next heq =>
      cases hi
      exact ⟨heq ▸ (h.beyond _ _ hold).1, hlen⟩
    · exact h.beyond f i hi
  · replace hf := (hlookup f).symm.trans hf
    replace hg := (hlookup g).symm.trans hg
    have := h.injective f g i
    grind
  · refine counted_moveId h.counted fun x hx heq => ?_
    cases hi : t₀.getId x.1 with
    | some i =>
      have := hreal x hx i hi
      omega
    | none =>
      by_cases hfake : p.fakeKey x.1 = fake
      · have hsame := (hfake ▸ h.fake x hx hi).symm.trans hold
        exact hmoved (heq.symm.trans (Option.some.inj hsame))
      · exact hnew _ _ hfake (h.fake x hx hi) heq

/-- One fake cell gets its place; the names that were there stay. -/
theorem Merging.mergeFake {t : CellNames} {rest : List String} (h : p.Merging t₀ t (fake :: rest)) :
    (mergeFake (t, p) fake).2.Merging t₀ (mergeFake (t, p) fake).1 rest ∧
      t.Grows (mergeFake (t, p) fake).1 := by
  obtain ⟨hnone, old, hold⟩ := h.waiting fake mem_cons_self
  obtain ⟨hnotin, hnodup⟩ := nodup_cons.mp h.nodup
  obtain ⟨hfirst, hinOrder⟩ := pairwise_cons.mp h.inOrder
  obtain ⟨hne, holdlen⟩ := h.beyond fake old hold
  have hfree : t.nameAt (t.nextFree old) = "" := nameAt_nextFree
  have hlen : t₀.length ≤ t.nextFree old := holdlen.trans (Nat.le_add_right ..)
  -- the place is neither that of a placed fake cell nor one that a waiting fake cell stands for
  have hother : ∀ g b, g ≠ fake → p.fakeNameToId.lookup g = some b → b ≠ t.nextFree old := by
    rintro g b hg hb rfl
    by_cases hrest : g ∈ rest
    · by_cases htaken : t.nameAt old = ""
      · rw [nextFree_of_free htaken] at hb
        exact hg (h.injective g fake old hb hold)
      · exact hfirst g hrest old hold _ hb htaken hfree
    · have := h.placed g _ hb (by simp [hg, hrest])
      exact (h.beyond g _ hb).1 (this.symm.trans hfree)
  rw [Design.mergeFake, if_neg (by simp [hnone])]
  simp only [hold]
  generalize t.nextFree old = new at *
  obtain ⟨q, hq, hresolved, hlookup⟩ : ∃ q, (if new = old then p else p.moveId fake old new) = q ∧
      q.Resolved t₀ ∧ ∀ f, q.fakeNameToId.lookup f =
        if f = fake then some new else p.fakeNameToId.lookup f := by
    refine ⟨_, rfl, ?_⟩
    split
    · next heq =>
      refine ⟨h.toResolved, fun f => ?_⟩
      split
      · next hf => rw [hf, hold, heq]
      · rfl
    · next hmoved => exact ⟨h.moveId hold hother hlen hmoved, lookup_insert_eq _ _ _⟩
  rw [hq]
  have hkept : ∀ g ∈ rest, q.fakeNameToId.lookup g = p.fakeNameToId.lookup g := fun g hg =>
    (hlookup g).trans (if_neg (ne_of_mem_of_not_mem hg hnotin))
  refine ⟨⟨hresolved, fun f id hf hrest => ?_, fun g hg => ⟨?_, ?_⟩, hnodup, ?_⟩,
    fun i hi => by rw [nameAt_addCellAt, if_neg fun heq : i = new => hi (heq ▸ hfree)]⟩
  · rw [hlookup] at hf
    rw [nameAt_addCellAt]
    split at hf
    · next heq => rw [if_pos (Option.some.inj hf).symm, heq]
    · next hneq => rw [if_neg (hother f id hneq hf), h.placed f id hf (by simp [hneq, hrest])]
  · obtain ⟨hgnone, b, hb⟩ := h.waiting g (mem_cons_of_mem _ hg)
    have hgne := (h.beyond g b hb).1
    refine (getId_eq_none_iff hgne).mpr fun i => ?_
    rw [nameAt_addCellAt]
    split
    · exact fun heq => hnotin (heq ▸ hg)
    · exact (getId_eq_none_iff hgne).mp hgnone i
  · rw [hkept g hg]
    exact (h.waiting g (mem_cons_of_mem _ hg)).2
  · refine hinOrder.imp_of_mem fun {f g} hf hg hfg a ha b hb => ?_
    rw [hkept f hf] at ha
    rw [hkept g hg] at hb
    have hclear : ∀ f ∈ rest, ∀ a ∈ p.fakeNameToId.lookup f, a ≠ new := fun f hf a ha =>
      hother f a (ne_of_mem_of_not_mem hf hnotin) ha
    rw [nameAt_addCellAt, nameAt_addCellAt, if_neg (hclear f hf a ha),
      if_neg (hclear g hg b hb)]
    exact hfg a ha b hb

theorem Merging.mergeAllFakes {rest : List String} :
    ∀ {t : CellNames} {p : BlockProduct}, p.Merging t₀ t rest →
    (rest.foldl Design.mergeFake (t, p)).2.Merging t₀ (rest.foldl Design.mergeFake (t, p)).1 [] ∧
      t.Grows (rest.foldl Design.mergeFake (t, p)).1 := by
  induction rest with
  | nil => exact fun h => ⟨h, fun _ _ => rfl⟩
  | cons fake rest ih =>
    intro t p h
    obtain ⟨hstep, hgrows⟩ := h.mergeFake
    obtain ⟨hrun, hgrows'⟩ := ih hstep
    exact ⟨hrun, hgrows.trans hgrows'⟩

theorem Parsed.merging {t : CellNames} (h : p.Parsed t₀) (hfits : Fits t p) :
    p.Merging t₀ t p.fakeCells where
  toResolved := h.toResolved
  placed f id hf hrest := absurd ((h.names f).mpr ⟨id, hf⟩) hrest
  waiting f hf := ⟨hfits.1 f hf, (h.names f).mp hf⟩
  nodup := h.nodup
  inOrder := hfits.2

theorem Merging.mastersKept {t t' : CellNames} (h : p.Merging t₀ t []) (hfirst : t₀.Grows t')
    (hgrows : t.Grows t') : MastersKept t₀ t' p where
  real x hx id hid := by
    obtain ⟨hname, hne⟩ := getId_eq_some hid
    exact ⟨h.real x hx id hid, getElem?_of_nameAt (hfirst.nameAt_eq hname hne) hne⟩
  fake x hx hnone := by
    have hplaced := h.placed _ _ (h.fake x hx hnone) not_mem_nil
    exact getElem?_of_nameAt (hgrows.nameAt_eq hplaced fakeKey_ne) fakeKey_ne
  counts := h.counted.getD_eq

/-- What the DEF file says: its block and the masters of its instances. -/
def source (p : BlockProduct) : String × List String := (p.blockName, p.instances.map (·.1))

theorem source_parse (t₀ : CellNames) (blockName : String) (masters : List String) :
    (parse t₀ blockName masters).source = (blockName, masters) := by
  have : ∀ p : BlockProduct, (masters.foldl (fun p master => p.resolve t₀ master) p).source =
      (p.blockName, p.source.2 ++ masters) := by
    induction masters with
    | nil => exact fun p => by simp [source]
    | cons m ms ih =>
      intro p
      have hstep : (p.resolve t₀ m).source = (p.blockName, p.source.2 ++ [m]) := by
        rw [BlockProduct.resolve]
        split
        · simp [source, addInstance]
        · split <;> simp [source, addInstance, addFake]
      rw [foldl_cons, ih, hstep, append_assoc]
      exact congrArg (·, _) (congrArg Prod.fst hstep)
  exact this _

theorem source_mergeBlockBuild (t : CellNames) (p : BlockProduct) :
    (mergeBlockBuild t p).2.source = p.source := by
  refine List.foldlRecOn p.fakeCells _ (motive := fun (s : CellNames × BlockProduct) =>
    s.2.source = p.source) rfl fun s hs fake _ => ?_
  rw [← hs, Design.mergeFake]
  split
  · rfl
  split
  · rfl
  · simp only
    split
    · rfl
    · simp [source, moveId]

end BlockProduct

open BlockProduct

theorem source_mergeAll : ∀ (t : CellNames) (ps : List BlockProduct),
    (mergeAll t ps).2.map source = ps.map source
  | _, [] => rfl
  | t, p :: ps => by
    rw [mergeAll, map_cons, map_cons, source_mergeBlockBuild, source_mergeAll]

theorem mastersKept_mergeAll {t₀ : CellNames} {ps : List BlockProduct} : ∀ {t : CellNames}, t₀.Grows t →
    FitsAll t ps → (∀ p ∈ ps, p.Parsed t₀) →
    t.Grows (mergeAll t ps).1 ∧ ∀ q ∈ (mergeAll t ps).2, MastersKept t₀ (mergeAll t ps).1 q := by
  induction ps with
  | nil => exact fun _ _ _ => ⟨fun _ _ => rfl, by simp [mergeAll]⟩
  | cons p ps ih =>
    intro t hfirst hfits hparsed
    obtain ⟨hp, hps⟩ := forall_mem_cons.mp hparsed
    obtain ⟨hmerged, hgrows⟩ := (hp.merging hfits.1).mergeAllFakes
    obtain ⟨hrest, hkept⟩ := ih (hfirst.trans hgrows) hfits.2 hps
    exact ⟨hgrows.trans hrest, forall_mem_cons.mpr
      ⟨hmerged.mastersKept ((hfirst.trans hgrows).trans hrest) hrest, hkept⟩⟩

/-- The DEF files are parsed against one table, then merged; the products that come out are those of the
files, and each keeps its masters. -/
theorem masters_kept (t₀ : CellNames) (defs : List (String × List String))
    (hfits : FitsAll t₀ (defs.map fun d => parse t₀ d.1 d.2)) :
    (mergeAll t₀ (defs.map fun d => parse t₀ d.1 d.2)).2.map source = defs ∧
    ∀ q ∈ (mergeAll t₀ (defs.map fun d => parse t₀ d.1 d.2)).2,
      MastersKept t₀ (mergeAll t₀ (defs.map fun d => parse t₀ d.1 d.2)).1 q := by
  refine ⟨?_, (mastersKept_mergeAll (fun _ _ => rfl) hfits ?_).2⟩
  · rw [source_mergeAll, map_map]
    exact (map_congr_left fun d _ => source_parse t₀ d.1 d.2).trans (map_id _)
  · exact forall_mem_map.mpr fun d _ => parsed_parse t₀ d.1 d.2

def tieAndKopf : List BlockProduct :=
  [("tie", ["inv", "buf"]), ("kopf", ["nand", "inv"])].map fun d => parse ["", "inv"] d.1 d.2

/-- The fake cell of the second block finds its place taken, and moves on. -/
theorem masters_kept_of_tie :
    (mergeAll ["", "inv"] tieAndKopf).1 = ["", "inv", "", "", "tie::buf", "kopf::nand"] ∧
    ∀ q ∈ (mergeAll ["", "inv"] tieAndKopf).2,
      MastersKept ["", "inv"] (mergeAll ["", "inv"] tieAndKopf).1 q := by
  have hfits : FitsAll ["", "inv"] tieAndKopf :=
    ⟨⟨by decide +kernel, by decide +kernel⟩, ⟨by decide +kernel, by decide +kernel⟩, trivial⟩
  exact ⟨by decide +kernel, (masters_kept _ _ hfits).2⟩

/-- `kopf::nand` moves to the id that `kopf::inv` has, and goes on with it. -/
theorem nand_becomes_inv :
    ["tie", "kopf"].Nodup ∧ ¬ ∀ q ∈ (mergeAll [""] ([("tie", ["buf"]), ("kopf", ["nand", "inv"])].map fun d =>
      parse [""] d.1 d.2)).2, MastersKept [""] (mergeAll [""] ([("tie", ["buf"]),
        ("kopf", ["nand", "inv"])].map fun d => parse [""] d.1 d.2)).1 q := by
  refine ⟨by decide, fun h => ?_⟩
  have hfake := fun q hq => (h q hq).fake
  revert hfake
  decide +kernel

end Fly.Design
