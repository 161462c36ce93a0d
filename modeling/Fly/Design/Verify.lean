import Fly.Lib.Table
import Mathlib.Algebra.BigOperators.Ring.Finset
import Mathlib.Algebra.Order.BigOperators.Group.Finset
import Mathlib.Data.Int.Interval

/-!
# The checks on a finished design (`ds_verify.cpp`)

Before a design is frozen its tables are looked at once more.

* `checkNetUnion` — the classes of connected nets, kept in two directions; the check counts the members of
  all lists, so it takes a net listed twice for one that is missing (`checkNetUnion_exact_iff`);
* `checkPartitionCoverage` — the cores of the partitions tile the rectangle of the density grid; the check
  compares areas (`checkPartitionCoverage_exact`).
-/

namespace Fly.Design

open Fly.Lib List Table

/-! ### Classes of nets -/

/-- The root of each net, and the nets of each root. -/
structure DSNetUnion where
  rootOf : Table ℕ ℕ
  membersOf : Table ℕ (List ℕ)

namespace DSNetUnion

variable (u : DSNetUnion)

/-- The members of all lists. -/
def listed : List ℕ := (pairs u.membersOf).flatMap Prod.snd

/-- What the loop over `members_of_` finds wrong with an entry. -/
def memberError (root : ℕ) (members : List ℕ) : Option String :=
  if u.rootOf.lookup root ≠ some root then
    some ("members_of_ key " ++ toString root ++ " is not a root in root_of_")
  else
    (members.find? fun net => u.rootOf.lookup net ≠ some root).map fun net =>
      "members_of_ entry " ++ toString net ++ " does not map back to root " ++ toString root

/-- `ds_check_net_union`; an empty text is a pass. -/
def checkNetUnion : String :=
  match (pairs u.rootOf).find? fun e => u.rootOf.lookup e.2 ≠ some e.2 with
  | some e => "root_of_ two-layer invariant broken: root " ++ toString e.2 ++ " is not self-mapped"
  | none =>
    match (pairs u.membersOf).findSome? fun e => u.memberError e.1 e.2 with
    | some text => text
    | none =>
      if u.listed.length ≠ (pairs u.rootOf).length then
        "members_of_ lists " ++ toString u.listed.length ++ " member(s) but root_of_ has " ++
          toString (pairs u.rootOf).length
      else ""

/-- The two tables say the same. -/
structure Consistent : Prop where
  roots : ∀ net root, u.rootOf.lookup net = some root → u.rootOf.lookup root = some root
  members : ∀ root, u.rootOf.lookup root = some root → ∃ members,
    u.membersOf.lookup root = some members ∧ members.Nodup ∧
      ∀ net, net ∈ members ↔ u.rootOf.lookup net = some root
  keys : ∀ root members, u.membersOf.lookup root = some members → u.rootOf.lookup root = some root

/-- What the check looks at. -/
structure Passes : Prop where
  roots : ∀ net root, u.rootOf.lookup net = some root → u.rootOf.lookup root = some root
  members : ∀ root members, u.membersOf.lookup root = some members →
    u.rootOf.lookup root = some root ∧ ∀ net ∈ members, u.rootOf.lookup net = some root
  count : u.listed.length = (pairs u.rootOf).length

/-- No list has a net twice. -/
def NoneTwice : Prop := ∀ root members, u.membersOf.lookup root = some members → members.Nodup

variable {u} {root net : ℕ} {members : List ℕ}

theorem memberError_eq_none_iff : u.memberError root members = none ↔
    u.rootOf.lookup root = some root ∧ ∀ net ∈ members, u.rootOf.lookup net = some root := by
  by_cases h : u.rootOf.lookup root = some root <;> simp [memberError, h]

theorem memberError_ne_empty : u.memberError root members ≠ some "" := by
  unfold memberError
  split
  · simp
  · simp

theorem checkNetUnion_eq_empty_iff : u.checkNetUnion = "" ↔ u.Passes := by
  unfold checkNetUnion
  split
  · next e he =>
    refine iff_of_false (by simp) fun h => ?_
    have hbad := find?_some he
    simp only [ne_eq, decide_not, Bool.not_eq_true', decide_eq_false_iff_not] at hbad
    exact hbad (h.roots e.1 e.2 (mem_pairs.mp (mem_of_find?_eq_some he)))
  next hroots =>
  have hroots : ∀ net root, u.rootOf.lookup net = some root → u.rootOf.lookup root = some root := by
    intro net root hnet
    simpa using find?_eq_none.mp hroots _ (mem_pairs.mpr hnet)
  split
  · next text htext =>
    obtain ⟨e, he, herror⟩ := exists_of_findSome?_eq_some htext
    refine iff_of_false ?_ fun h => ?_
    · rintro rfl
      exact memberError_ne_empty herror
    · rw [memberError_eq_none_iff.mpr (h.members e.1 e.2 (mem_pairs.mp he))] at herror
      cases herror
  next hmembers =>
  have hmembers : ∀ root members, u.membersOf.lookup root = some members →
      u.rootOf.lookup root = some root ∧ ∀ net ∈ members, u.rootOf.lookup net = some root := by
    intro root members hroot
    exact memberError_eq_none_iff.mp (findSome?_eq_none_iff.mp hmembers _ (mem_pairs.mpr hroot))
  split
  · next hcount => exact iff_of_false (by simp) fun h => hcount h.count
  · next hcount => exact iff_of_true rfl ⟨hroots, hmembers, not_not.mp hcount⟩

theorem mem_listed :
    net ∈ u.listed ↔ ∃ root members, u.membersOf.lookup root = some members ∧ net ∈ members := by
  simp [listed, ← mem_pairs]

/-- Lists of different roots have no net in common, as a net has one root. -/
theorem nodup_listed (hback : ∀ root members, u.membersOf.lookup root = some members →
    ∀ net ∈ members, u.rootOf.lookup net = some root) (htwice : u.NoneTwice) : u.listed.Nodup := by
  refine nodup_flatMap.mpr ⟨fun e he => htwice e.1 e.2 (mem_pairs.mp he), ?_⟩
  refine (pairwise_map.mp (nodup_pairs u.membersOf)).imp_of_mem fun {e f} he hf hne => ?_
  intro net hnet hnet'
  refine hne (Option.some.inj ?_)
  rw [← hback e.1 e.2 (mem_pairs.mp he) net hnet, hback f.1 f.2 (mem_pairs.mp hf) net hnet']

theorem mem_keys : net ∈ (pairs u.rootOf).map Prod.fst ↔ ∃ root, u.rootOf.lookup net = some root := by
  simp [← mem_pairs]

/-- As many members as nets, none twice and all of them nets: every net is a member. -/
theorem Passes.consistent (h : u.Passes) (htwice : u.NoneTwice) : u.Consistent := by
  have hnodup := nodup_listed (fun root members hroot => (h.members root members hroot).2) htwice
  have hsub : u.listed ⊆ (pairs u.rootOf).map Prod.fst := by
    intro net hnet
    obtain ⟨root, members, hroot, hnet⟩ := mem_listed.mp hnet
    exact mem_keys.mpr ⟨root, (h.members root members hroot).2 net hnet⟩
  have hperm := (hnodup.subperm hsub).perm_of_length_le (by rw [length_map, h.count])
  have hall : ∀ net root, u.rootOf.lookup net = some root →
      ∃ members, u.membersOf.lookup root = some members ∧ net ∈ members := by
    intro net root hnet
    obtain ⟨root', members, hroot, hmem⟩ :=
      mem_listed.mp (hperm.mem_iff.mpr (mem_keys.mpr ⟨root, hnet⟩))
    rw [(h.members root' members hroot).2 net hmem, Option.some.injEq] at hnet
    exact ⟨members, hnet ▸ hroot, hmem⟩
  refine ⟨h.roots, fun root hroot => ?_, fun root members hkey => (h.members root members hkey).1⟩
  obtain ⟨members, hmembers, -⟩ := hall root root hroot
  refine ⟨members, hmembers, htwice root members hmembers, fun net => ?_⟩
  refine ⟨(h.members root members hmembers).2 net, fun hnet => ?_⟩
  obtain ⟨members', hmembers', hmem⟩ := hall net root hnet
  rw [hmembers, Option.some.injEq] at hmembers'
  exact hmembers' ▸ hmem

theorem Consistent.members_of_lookup (h : u.Consistent) (hroot : u.membersOf.lookup root = some members) :
    members.Nodup ∧ ∀ net, net ∈ members ↔ u.rootOf.lookup net = some root := by
  obtain ⟨members', hmembers, hspec⟩ := h.members root (h.keys root members hroot)
  rw [hroot, Option.some.injEq] at hmembers
  exact hmembers ▸ hspec

theorem Consistent.passes (h : u.Consistent) : u.Passes ∧ u.NoneTwice := by
  have htwice : u.NoneTwice := fun root members hroot => (h.members_of_lookup hroot).1
  have hback : ∀ root members, u.membersOf.lookup root = some members →
      ∀ net ∈ members, u.rootOf.lookup net = some root :=
    fun root members hroot net => ((h.members_of_lookup hroot).2 net).mp
  have hperm : u.listed ~ (pairs u.rootOf).map Prod.fst := by
    refine (perm_ext_iff_of_nodup (nodup_listed hback htwice) (nodup_pairs _)).mpr fun net => ?_
    rw [mem_listed, mem_keys]
    constructor
    · rintro ⟨root, members, hroot, hnet⟩
      exact ⟨root, hback root members hroot net hnet⟩
    · rintro ⟨root, hnet⟩
      obtain ⟨members, hroot, -, hspec⟩ := h.members root (h.roots net root hnet)
      exact ⟨root, members, hroot, (hspec net).mpr hnet⟩
  refine ⟨⟨h.roots, fun root members hroot => ⟨h.keys root members hroot, hback root members hroot⟩, ?_⟩,
    htwice⟩
  rw [hperm.length_eq, length_map]

/-- **The check is exact unless a net listed twice makes up for a missing one.** -/
theorem checkNetUnion_exact_iff : (u.checkNetUnion = "" ↔ u.Consistent) ↔ (u.Passes → u.NoneTwice) := by
  rw [checkNetUnion_eq_empty_iff]
  constructor
  · exact fun h hpasses => (h.mp hpasses).passes.2
  · exact fun h => ⟨fun hpasses => hpasses.consistent (h hpasses), fun hcons => hcons.passes.1⟩

/-- Nets 1 and 2 have the root 1, whose list is `[1, 1]`. -/
def memberTwice : DSNetUnion where
  rootOf := ((∅ : Table ℕ ℕ).insert 1 1).insert 2 1
  membersOf := (∅ : Table ℕ (List ℕ)).insert 1 [1, 1]

theorem memberTwice_passes : ¬(memberTwice.checkNetUnion = "" ↔ memberTwice.Consistent) := by
  intro h
  have hcons : memberTwice.Consistent := h.mp (by decide +kernel)
  exact absurd (hcons.passes.2 1 [1, 1] (by decide)) (by decide)

end DSNetUnion

/-! ### Coverage by the partitions -/

structure CoreRect where
  xl : ℤ
  yl : ℤ
  xh : ℤ
  yh : ℤ

namespace CoreRect

variable (a b : CoreRect)

def area : ℤ := (a.xh - a.xl) * (a.yh - a.yl)

def overlaps : Bool := a.xl < b.xh && b.xl < a.xh && a.yl < b.yh && b.yl < a.yh

def text : String :=
  "[" ++ toString a.xl ++ "," ++ toString a.yl ++ "," ++ toString a.xh ++ "," ++ toString a.yh ++ "]"

/-- The points of the rectangle; the upper edges do not belong to it. -/
def points : Finset (ℤ × ℤ) :=
  @Finset.Ico ℤ _ Int.instLocallyFiniteOrder a.xl a.xh ×ˢ @Finset.Ico ℤ _ Int.instLocallyFiniteOrder a.yl a.yh

def Inside : Prop := b.xl ≤ a.xl ∧ b.yl ≤ a.yl ∧ a.xh ≤ b.xh ∧ a.yh ≤ b.yh

instance : Decidable (a.Inside b) := inferInstanceAs (Decidable (_ ∧ _))

end CoreRect

structure DSSubPartition where
  xp : ℕ
  yp : ℕ
  core : CoreRect

def DSSubPartition.coord (p : DSSubPartition) : String := toString p.xp ++ "," ++ toString p.yp

structure DSDensityGrid where
  originX : ℤ
  originY : ℤ
  binWidth : ℤ
  binHeight : ℤ
  cols : ℕ
  rows : ℕ

namespace DSDensityGrid

variable (g : DSDensityGrid)

def Configured : Prop := 0 < g.cols ∧ 0 < g.rows ∧ 0 < g.binWidth ∧ 0 < g.binHeight

instance : Decidable g.Configured := inferInstanceAs (Decidable (_ ∧ _))

def domain : CoreRect where
  xl := g.originX
  yl := g.originY
  xh := g.originX + g.cols * g.binWidth
  yh := g.originY + g.rows * g.binHeight

def Aligned (c : CoreRect) : Prop :=
  (c.xl - g.originX) % g.binWidth = 0 ∧ (c.xh - g.originX) % g.binWidth = 0 ∧
    (c.yl - g.originY) % g.binHeight = 0 ∧ (c.yh - g.originY) % g.binHeight = 0

instance (c : CoreRect) : Decidable (g.Aligned c) := inferInstanceAs (Decidable (_ ∧ _))

/-- The loop over the partitions, with the grid cells that are taken. -/
def coreError : List (ℕ × ℕ) → List DSSubPartition → Option String
  | _, [] => none
  | occupied, p :: ps =>
    if (p.xp, p.yp) ∈ occupied then some ("duplicate partition grid cell (" ++ p.coord ++ ")")
    else if ¬p.core.Inside g.domain then
      some ("partition (" ++ p.coord ++ ") core rect " ++ p.core.text ++
        " extends outside the global density domain")
    else if ¬g.Aligned p.core then
      some ("partition (" ++ p.coord ++ ") core rect is not aligned to the density grid")
    else coreError ((p.xp, p.yp) :: occupied) ps

/-- The loops over all pairs. -/
def overlapError : List DSSubPartition → Option String
  | [] => none
  | p :: ps =>
    match ps.find? fun q => p.core.overlaps q.core with
    | some q => some ("partition cores overlap: " ++ p.core.text ++ " vs " ++ q.core.text)
    | none => overlapError ps

variable (ps : List DSSubPartition)

/-- `ds_check_partition_coverage`; an empty text is a pass. -/
def checkPartitionCoverage : String :=
  if ps.isEmpty then
    if g.Configured then
      "partition table is empty but global density grid is configured (" ++ toString g.cols ++ "x" ++
        toString g.rows ++ " bins)"
    else ""
  else if ¬g.Configured then
    "partition table has " ++ toString ps.length ++ " entries but global density grid is unconfigured"
  else
    match (g.coreError [] ps).or (overlapError ps) with
    | some text => text
    | none =>
      let total := ps.foldl (fun total p => total + p.core.area) 0
      if total ≠ g.domain.area then
        "partition core union area " ++ toString total ++ " != density domain area " ++
          toString g.domain.area ++ " (gap or overlap — coverage broken)"
      else ""

/-- How many cores a point is in. -/
def covered (q : ℤ × ℤ) : ℕ := ps.countP fun p => q ∈ p.core.points

def WellFormed : Prop := ∀ p ∈ ps, p.core.xl < p.core.xh ∧ p.core.yl < p.core.yh

variable {g ps} {p : DSSubPartition} {occupied : List (ℕ × ℕ)} {a b : CoreRect}

theorem coreError_eq_none_iff (occupied : List (ℕ × ℕ))
    (hdistinct : (occupied ++ ps.map fun p => (p.xp, p.yp)).Nodup)
    (haligned : ∀ p ∈ ps, g.Aligned p.core) :
    g.coreError occupied ps = none ↔ ∀ p ∈ ps, p.core.Inside g.domain := by
  induction ps generalizing occupied with
  | nil => simp [coreError]
  | cons p ps ih =>
    rw [map_cons, nodup_middle] at hdistinct
    obtain ⟨hp, hps⟩ := forall_mem_cons.mp haligned
    have hnew : (p.xp, p.yp) ∉ occupied := fun h => (nodup_cons.mp hdistinct).1 (mem_append_left _ h)
    have hrest := ih ((p.xp, p.yp) :: occupied) hdistinct hps
    rw [coreError, if_neg hnew, if_neg (not_not.mpr hp), forall_mem_cons, ← hrest]
    by_cases hinside : p.core.Inside g.domain <;> simp [hinside]

theorem overlapError_eq_none_iff :
    overlapError ps = none ↔ ps.Pairwise fun p q => p.core.overlaps q.core = false := by
  induction ps with
  | nil => simp [overlapError]
  | cons p ps ih =>
    rw [overlapError, pairwise_cons, ← ih]
    split
    · next q hq =>
      refine iff_of_false (by simp) fun h => ?_
      have hno := h.1 q (mem_of_find?_eq_some hq)
      rw [find?_some hq] at hno
      cases hno
    · next hnone => simp_all

theorem coreError_ne_empty : g.coreError occupied ps ≠ some "" := by
  induction ps generalizing occupied with
  | nil => simp [coreError]
  | cons p ps ih =>
    rw [coreError]
    split_ifs <;> simp [ih]

theorem overlapError_ne_empty : overlapError ps ≠ some "" := by
  induction ps with
  | nil => simp [overlapError]
  | cons p ps ih =>
    rw [overlapError]
    split
    · simp
    · exact ih

/-- Well-formed rectangles overlap iff they have a point in common. -/
theorem overlaps_eq_false_iff (ha : a.xl < a.xh ∧ a.yl < a.yh) (hb : b.xl < b.xh ∧ b.yl < b.yh) :
    a.overlaps b = false ↔ ∀ q ∈ a.points, q ∉ b.points := by
  simp only [CoreRect.points, Finset.mem_product, Finset.mem_Ico]
  constructor
  · intro h q hq hq'
    simp only [CoreRect.overlaps, Bool.and_eq_false_iff, decide_eq_false_iff_not] at h
    omega
  · intro h
    by_contra hne
    simp only [CoreRect.overlaps, Bool.not_eq_false, Bool.and_eq_true, decide_eq_true_eq] at hne
    exact h (max a.xl b.xl, max a.yl b.yl) (by simp; omega) (by simp; omega)

/-- No two cores overlap iff no point is in two of them. -/
theorem pairwise_iff_covered_le (hwell : WellFormed ps) :
    (ps.Pairwise fun p q => p.core.overlaps q.core = false) ↔ ∀ q, covered ps q ≤ 1 := by
  induction ps with
  | nil => simp [covered]
  | cons p ps ih =>
    obtain ⟨hp, hps⟩ := forall_mem_cons.mp hwell
    have hfree : (∀ p' ∈ ps, p.core.overlaps p'.core = false) ↔ ∀ q ∈ p.core.points, covered ps q = 0 := by
      simp only [covered, countP_eq_zero, decide_eq_true_eq]
      constructor
      · exact fun h q hq p' hp' => (overlaps_eq_false_iff hp (hps p' hp')).mp (h p' hp') q hq
      · exact fun h p' hp' => (overlaps_eq_false_iff hp (hps p' hp')).mpr fun q hq => h q hq p' hp'
    rw [pairwise_cons, ih hps, hfree, ← forall_and]
    refine forall_congr' fun q => ?_
    rw [covered, covered, countP_cons]
    by_cases hq : q ∈ p.core.points
    · simp only [hq, forall_const, decide_true, if_true]
      omega
    · simp [hq]

theorem area_eq_card {c : CoreRect} (h : c.xl < c.xh ∧ c.yl < c.yh) : c.area = (c.points.card : ℤ) := by
  rw [CoreRect.points, Finset.card_product, Int.card_Ico, Int.card_Ico, CoreRect.area]
  push_cast
  rw [Int.toNat_of_nonneg (by omega), Int.toNat_of_nonneg (by omega)]

/-- The areas of cores in the domain count its points, each as often as it is covered. -/
theorem foldl_area {D : Finset (ℤ × ℤ)} (hwell : WellFormed ps) (hin : ∀ p ∈ ps, p.core.points ⊆ D)
    (total : ℤ) :
    ps.foldl (fun total p => total + p.core.area) total = total + ((∑ q ∈ D, covered ps q : ℕ) : ℤ) := by
  induction ps generalizing total with
  | nil => simp [covered]
  | cons p ps ih =>
    obtain ⟨hp, hps⟩ := forall_mem_cons.mp hwell
    obtain ⟨hsub, hrest⟩ := forall_mem_cons.mp hin
    have hsum : ∑ q ∈ D, covered (p :: ps) q = ∑ q ∈ D, covered ps q + p.core.points.card := by
      simp only [covered, countP_cons, Finset.sum_add_distrib, decide_eq_true_eq]
      rw [← Finset.card_filter, Finset.filter_mem_eq_inter, Finset.inter_eq_right.mpr hsub]
    rw [foldl_cons, ih hps hrest, hsum, area_eq_card hp, Nat.cast_add]
    omega

theorem points_subset (h : a.Inside b) : a.points ⊆ b.points :=
  Finset.product_subset_product (Finset.Ico_subset_Ico h.1 h.2.2.1) (Finset.Ico_subset_Ico h.2.1 h.2.2.2)

/-- **The coverage check is exact**: it passes iff the cores lie in the domain and every point of it is in
exactly one of them. -/
theorem checkPartitionCoverage_exact (hconfigured : g.Configured) (hne : ps ≠ []) (hwell : WellFormed ps)
    (hdistinct : (ps.map fun p => (p.xp, p.yp)).Nodup) (haligned : ∀ p ∈ ps, g.Aligned p.core) :
    g.checkPartitionCoverage ps = "" ↔
      (∀ p ∈ ps, p.core.Inside g.domain) ∧ ∀ q ∈ g.domain.points, covered ps q = 1 := by
  obtain ⟨hcols, hrows, hwidth, hheight⟩ := hconfigured
  have hdomain : g.domain.xl < g.domain.xh ∧ g.domain.yl < g.domain.yh := by
    have hx := Int.mul_pos (Int.natCast_pos.mpr hcols) hwidth
    have hy := Int.mul_pos (Int.natCast_pos.mpr hrows) hheight
    simp only [domain]
    omega
  have hpass : g.checkPartitionCoverage ps = "" ↔ (∀ p ∈ ps, p.core.Inside g.domain) ∧
      (∀ q, covered ps q ≤ 1) ∧ ps.foldl (fun total p => total + p.core.area) 0 = g.domain.area := by
    rw [← coreError_eq_none_iff [] hdistinct haligned, ← pairwise_iff_covered_le hwell,
      ← overlapError_eq_none_iff, checkPartitionCoverage, if_neg (by simpa using hne),
      if_neg (not_not.mpr ⟨hcols, hrows, hwidth, hheight⟩)]
    cases hcore : g.coreError [] ps with
    | some text => simpa [hcore] using (coreError_ne_empty : g.coreError [] ps ≠ _)
    | none =>
      cases hoverlap : overlapError ps with
      | some text => simpa [hoverlap] using (overlapError_ne_empty : overlapError ps ≠ _)
      | none =>
        by_cases htotal : ps.foldl (fun total p => total + p.core.area) 0 = g.domain.area <;> simp [htotal]
  rw [hpass]
  refine and_congr_right fun hinside => ?_
  rw [foldl_area hwell (D := g.domain.points) (fun p hp => points_subset (hinside p hp)), zero_add,
    area_eq_card hdomain, Nat.cast_inj, Finset.card_eq_sum_ones]
  constructor
  · rintro ⟨hle, hsum⟩
    exact (Finset.sum_eq_sum_iff_of_le fun q _ => hle q).mp hsum
  · intro hone
    refine ⟨fun q => ?_, Finset.sum_congr rfl hone⟩
    by_cases hq : q ∈ g.domain.points
    · exact (hone q hq).le
    · have hzero : covered ps q = 0 := by
        simpa [covered] using fun p hp h => hq (points_subset (hinside p hp) h)
      omega

/-- A row of two bins, and a partition for each. -/
def twoBins : DSDensityGrid := ⟨0, 0, 10, 10, 2, 1⟩

def twoCores : List DSSubPartition := [⟨0, 0, ⟨0, 0, 10, 10⟩⟩, ⟨1, 0, ⟨10, 0, 20, 10⟩⟩]

theorem checkPartitionCoverage_exact_twoBins : twoBins.checkPartitionCoverage twoCores = "" ∧
    ∀ q ∈ twoBins.domain.points, covered twoCores q = 1 := by
  have hpass : twoBins.checkPartitionCoverage twoCores = "" := by decide +kernel
  refine ⟨hpass, ?_⟩
  exact ((checkPartitionCoverage_exact (by decide) (by simp [twoCores]) (by simp [WellFormed, twoCores])
    (by decide) (by simp [twoCores]; decide)).mp hpass).2

end DSDensityGrid

end Fly.Design
