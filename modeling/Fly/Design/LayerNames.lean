import Fly.Lib.Run
import Mathlib.Data.List.Nodup
import Mathlib.Data.List.Perm.Subperm

/-!
# Layers and their names (`ds_lef_adapter.cpp`, `ds_types.cpp`, `ds_name_hasher.h`)

The id of a layer is its place in the table of layers; the id that its name is found under is the number of
names registered before.  The two go apart at a new name behind a repeated one.

* `techLayers` — the callback on the LAYER statements of a file;
* `Resolves` — every name is found, at its first layer; `resolves_iff` — when that is so.
-/

namespace Fly.Design

open Fly.Lib List

inductive LefLayerType where
  | routing | cut | other
  deriving DecidableEq

structure LefLayer where
  name : String
  type : LefLayerType

structure DSLayer where
  name : String
  type : LefLayerType
  id : ℕ

/-- `layerNames` is the name table of the hasher; its backend has every name of the table with its place. -/
structure DSStack where
  layers : List DSLayer := []
  layerNames : List String := []

namespace DSStack

variable (s : DSStack)

/-- `get_id` of the hasher; `none` is the invalid id. -/
def findLayer (name : String) : Option ℕ := s.layerNames.findIdx? (· = name)

/-- A name that is registered already keeps its id. -/
def addLayer (name : String) (type : LefLayerType) : DSStack where
  layers := s.layers ++ [⟨name, type, s.layers.length⟩]
  layerNames := if (s.findLayer name).isSome then s.layerNames else s.layerNames ++ [name]

/-- Layers that are neither for routing nor for cuts are skipped. -/
def techLayerCbk (l : LefLayer) : DSStack := if l.type = .other then s else s.addLayer l.name l.type

end DSStack

variable (ls : List LefLayer)

def techLayers : DSStack := ls.foldl DSStack.techLayerCbk {}

/-- The names of the routing and cut layers, as they are given. -/
def givenNames : List String :=
  (ls.filter fun l => l.type ≠ .other).map LefLayer.name

/-- A name is found iff it was given, and then at the first layer of that name. -/
def Resolves : Prop :=
  ∀ name, (((techLayers ls).findLayer name).isSome ↔ name ∈ givenNames ls) ∧
    ∀ id, (techLayers ls).findLayer name = some id →
      ((techLayers ls).layers.map DSLayer.name)[id]? = some name ∧
        ∀ i < id, ((techLayers ls).layers.map DSLayer.name)[i]? ≠ some name

/-- No new name is given behind a repeated one. -/
def RepeatsLast : Prop :=
  ∀ pre l post, ls = pre ++ l :: post → l.type ≠ .other → l.name ∉ givenNames pre → (givenNames pre).Nodup

variable {ls} {l : LefLayer} {s : DSStack} {name : String}

theorem isSome_findLayer : (s.findLayer name).isSome ↔ name ∈ s.layerNames := by
  simp [DSStack.findLayer]

theorem findLayer_eq_some_iff (hnodup : s.layerNames.Nodup) {id : ℕ} :
    s.findLayer name = some id ↔ s.layerNames[id]? = some name := by
  have hplace : ∀ i, s.findLayer name = some i → s.layerNames[i]? = some name := by
    intro i hi
    obtain ⟨hlt, hname, -⟩ := findIdx?_eq_some_iff_getElem.mp hi
    rw [getElem?_eq_getElem hlt, of_decide_eq_true hname]
  refine ⟨hplace id, fun hid => ?_⟩
  obtain ⟨i, hi⟩ := Option.isSome_iff_exists.mp (isSome_findLayer.mpr (mem_of_getElem? hid))
  have hlt := (List.getElem?_eq_some_iff.mp (hplace i hi)).1
  rw [hi, (getElem?_inj hlt hnodup).mp ((hplace i hi).trans hid.symm)]

theorem givenNames_concat : givenNames (ls ++ [l]) =
    if l.type = .other then givenNames ls else givenNames ls ++ [l.name] := by
  by_cases h : l.type = .other <;> simp [givenNames, filter_append, h]

theorem repeatsLast_concat : RepeatsLast (ls ++ [l]) ↔
    RepeatsLast ls ∧ (l.type ≠ .other → l.name ∉ givenNames ls → (givenNames ls).Nodup) := by
  constructor
  · intro h
    refine ⟨fun pre m post hsplit => ?_, h ls l [] rfl⟩
    exact h pre m (post ++ [l]) (by rw [hsplit]; simp)
  · rintro ⟨hbefore, hlast⟩ pre m post hsplit
    rcases concat_eq_append_cons_iff.mp hsplit with ⟨rfl, rfl, -⟩ | ⟨post', -, hls⟩
    · exact hlast
    · exact hbefore pre m post' hls

/-- What the callbacks leave: the layers as they are given, and each name once. -/
structure Named (given : List String) (s : DSStack) : Prop where
  layers : s.layers.map DSLayer.name = given
  nodup : s.layerNames.Nodup
  mem : ∀ name, name ∈ s.layerNames ↔ name ∈ given

variable {given : List String}

theorem Named.length_le (h : Named given s) : s.layerNames.length ≤ given.length :=
  (h.nodup.subperm fun name => (h.mem name).mp).length_le

/-- Another layer keeps the names at the places of their layers iff its name is known or no name has been
given twice. -/
theorem Named.addLayer (h : Named given s) (name : String) (type : LefLayerType) :
    Named (given ++ [name]) (s.addLayer name type) ∧ ((s.addLayer name type).layerNames <+: given ++ [name] ↔
      s.layerNames <+: given ∧ (name ∉ given → given.Nodup)) := by
  have hlayers : (s.addLayer name type).layers.map DSLayer.name = given ++ [name] := by
    rw [DSStack.addLayer, map_append, h.layers]
    rfl
  by_cases hmem : name ∈ given
  · have hnames : (s.addLayer name type).layerNames = s.layerNames :=
      if_pos (isSome_findLayer.mpr ((h.mem name).mpr hmem))
    rw [hnames, and_iff_left fun hnew => absurd hmem hnew]
    refine ⟨⟨hlayers, hnames ▸ h.nodup, fun n => ?_⟩, fun hfront => ?_, fun hfront => ?_⟩
    · rw [hnames, h.mem, mem_append, mem_singleton, or_iff_left_of_imp]
      rintro rfl
      exact hmem
    · exact prefix_of_prefix_length_le hfront (prefix_append _ _) h.length_le
    · exact hfront.trans (prefix_append _ _)
  · have hnew := (h.mem name).not.mpr hmem
    have hnames : (s.addLayer name type).layerNames = s.layerNames ++ [name] :=
      if_neg (isSome_findLayer.not.mpr hnew)
    rw [hnames, prefix_concat_iff, append_left_inj]
    refine ⟨⟨hlayers, hnames ▸ ?_, fun n => ?_⟩, ?_, ?_⟩
    · exact nodup_append'.mpr ⟨h.nodup, nodup_singleton name, disjoint_singleton.mpr hnew⟩
    · rw [hnames, mem_append, h.mem, mem_append]
    · rintro (hsame | hfront)
      · exact ⟨hsame ▸ prefix_rfl, fun _ => hsame ▸ h.nodup⟩
      · exact absurd (hfront.subset (mem_append_right _ mem_cons_self)) hmem
    · rintro ⟨hfront, hnodup⟩
      refine .inl (hfront.eq_of_length_le ?_)
      exact ((hnodup hmem).subperm fun n => (h.mem n).mpr).length_le

theorem named_techLayers (ls : List LefLayer) : Named (givenNames ls) (techLayers ls) ∧
    ((techLayers ls).layerNames <+: givenNames ls ↔ RepeatsLast ls) := by
  induction ls using reverseRecOn with
  | nil => exact ⟨⟨rfl, nodup_nil, fun _ => Iff.rfl⟩, iff_of_true prefix_rfl (by simp [RepeatsLast])⟩
  | append_singleton ls l ih =>
    rw [repeatsLast_concat, givenNames_concat, show techLayers (ls ++ [l]) = (techLayers ls).techLayerCbk l by
      simp [techLayers], DSStack.techLayerCbk]
    by_cases hother : l.type = .other
    · rw [if_pos hother, if_pos hother, and_iff_left fun hkept => absurd hother hkept]
      exact ih
    · rw [if_neg hother, if_neg hother, ← ih.2]
      refine ⟨(ih.1.addLayer l.name l.type).1, (ih.1.addLayer l.name l.type).2.trans ?_⟩
      exact and_congr_right fun _ => ⟨fun hnodup _ => hnodup, fun hnodup => hnodup hother⟩

/-- **Layer names resolve to their layers** iff no new name is given behind a repeated one. -/
theorem resolves_iff (ls : List LefLayer) : Resolves ls ↔ RepeatsLast ls := by
  obtain ⟨hnamed, hprefix⟩ := named_techLayers ls
  rw [← hprefix, Resolves, hnamed.layers]
  constructor
  · refine fun h => prefix_iff_getElem?.mpr fun i hi => ((h _).2 i ?_).1
    rw [findLayer_eq_some_iff hnamed.nodup, getElem?_eq_getElem hi]
  · intro h name
    refine ⟨isSome_findLayer.trans (hnamed.mem name), fun id hid => ?_⟩
    rw [findLayer_eq_some_iff hnamed.nodup] at hid
    have hlt := (List.getElem?_eq_some_iff.mp hid).1
    obtain ⟨rest, hrest⟩ := h
    rw [← hrest, getElem?_append_left hlt]
    refine ⟨hid, fun i hi hname => ?_⟩
    rw [getElem?_append_left (Nat.lt_trans hi hlt), ← hid,
      getElem?_inj (Nat.lt_trans hi hlt) hnamed.nodup] at hname
    omega

/-- A name is given twice, and then a new one. -/
def repeatedLayer : List LefLayer := [⟨"M1", .routing⟩, ⟨"M1", .routing⟩, ⟨"M2", .routing⟩]

theorem repeatedLayer_misresolved : (techLayers repeatedLayer).findLayer "M2" = some 1 ∧
    ((techLayers repeatedLayer).layers.map DSLayer.name)[1]? = some "M1" ∧ ¬Resolves repeatedLayer := by
  have hfound : (techLayers repeatedLayer).findLayer "M2" = some 1 := by decide
  have hlayer : ((techLayers repeatedLayer).layers.map DSLayer.name)[1]? = some "M1" := by decide
  refine ⟨hfound, hlayer, fun h => ?_⟩
  have hname := ((h "M2").2 1 hfound).1
  rw [hlayer] at hname
  simp at hname

end Fly.Design
