import Mathlib.Data.List.Basic
import Mathlib.Data.Int.Notation

/-!
# The vias of a route (`ds_def_adapter.cpp`, `ds_net_pipeline.h`)

`traverse_nets_path` keeps a via until the next point and puts it there: it reads a path as `VIA name ( x y )`.
A via with no point before the next one, or before the end of the path, is dropped.  In the routing of DEF a
via stands at the last point before its name.

* `traverseNetsPath` — the loop over the items of a path, with its wires and vias;
* `takenVias`, `placedVias` — the vias at the next point, as the loop has them, and at the last one;
* `vias_placed_iff` — they are the same iff the path returns to the point of each via.
-/

namespace Fly.Design

open List

/-- Items of other kinds are ignored. -/
inductive PathItem where
  | layer (name : String)
  | width (width : ℤ)
  | point (x y : ℤ)
  | flushPoint (x y ext : ℤ)
  | via (name : String)
  | viaData (numX numY stepX stepY : ℤ)
  | other

structure DSNetRawWire where
  layerName : String := ""
  widthDbu : ℤ := 0
  points : List (ℤ × ℤ) := []

structure DSNetRawVia where
  viaName : String := ""
  x : ℤ := 0
  y : ℤ := 0
  numX : ℤ := 1
  numY : ℤ := 1
  stepX : ℤ := 0
  stepY : ℤ := 0
  deriving DecidableEq

/-- The variables of the loop, and what it has put out. -/
structure Traversal where
  wires : List DSNetRawWire := []
  vias : List DSNetRawVia := []
  cur : DSNetRawWire := {}
  inWire : Bool := false
  pending : DSNetRawVia := {}
  hasPending : Bool := false

def DSNetRawVia.putAt (v : DSNetRawVia) (q : ℤ × ℤ) : DSNetRawVia := { v with x := q.1, y := q.2 }

-- from the units of the file to those of the stack
variable (convX : ℤ → ℤ)

def DSNetRawVia.setData (v : DSNetRawVia) (numX numY stepX stepY : ℤ) : DSNetRawVia :=
  { v with numX, numY, stepX := convX stepX, stepY := convX stepY }

namespace Traversal

variable (s : Traversal)

def flushWire : Traversal :=
  { s with
    wires := if s.inWire ∧ s.cur.points ≠ [] then s.wires ++ [s.cur] else s.wires
    cur := {}
    inWire := false }

def placePending (x y : ℤ) : Traversal :=
  { s with vias := s.vias ++ [s.pending.putAt (convX x, convX y)], hasPending := false, pending := {} }

def addPoint (x y : ℤ) : Traversal :=
  let s := { s with cur := { s.cur with points := s.cur.points ++ [(convX x, convX y)] } }
  if s.hasPending then s.placePending convX x y else s

def step : PathItem → Traversal
  | .layer name => { s.flushWire with cur := { layerName := name }, inWire := true }
  | .width width => { s with cur := { s.cur with widthDbu := convX width } }
  | .point x y | .flushPoint x y _ => s.addPoint convX x y
  | .via name => { s with pending := { viaName := name }, hasPending := true }
  | .viaData numX numY stepX stepY => { s with pending := s.pending.setData convX numX numY stepX stepY }
  | .other => s

end Traversal

open Traversal

def traverseNetsPath (items : List PathItem) : List DSNetRawWire × List DSNetRawVia :=
  let s := (items.foldl (step convX) {}).flushWire
  (s.wires, s.vias)

/-! ### Where the vias stand -/

/-- The vias of the loop, with `pending` waiting for a point. -/
def takenVias : Option DSNetRawVia → List PathItem → List DSNetRawVia
  | _, [] => []
  | pending, item :: items =>
    match item with
    | .point x y | .flushPoint x y _ =>
      (pending.map (·.putAt (convX x, convX y))).toList ++ takenVias none items
    | .via name => takenVias (some { viaName := name }) items
    | .viaData nx ny sx sy => takenVias (pending.map (·.setData convX nx ny sx sy)) items
    | _ => takenVias pending items

/-- Each via at the last point before its name, with the array data behind its name. -/
def placedVias : ℤ × ℤ → Option DSNetRawVia → List PathItem → List DSNetRawVia
  | last, named, [] => (named.map (·.putAt last)).toList
  | last, named, item :: items =>
    match item with
    | .point x y | .flushPoint x y _ =>
      (named.map (·.putAt last)).toList ++ placedVias (convX x, convX y) none items
    | .via name => (named.map (·.putAt last)).toList ++ placedVias last (some { viaName := name }) items
    | .viaData nx ny sx sy => placedVias last (named.map (·.setData convX nx ny sx sy)) items
    | _ => placedVias last named items

/-- Behind every via comes a point before the next via, and it is the last point before the via. -/
def Returns : ℤ × ℤ → Bool → List PathItem → Prop
  | _, waiting, [] => waiting = false
  | last, waiting, item :: items =>
    match item with
    | .point x y | .flushPoint x y _ =>
      (waiting = true → (convX x, convX y) = last) ∧ Returns (convX x, convX y) false items
    | .via _ => waiting = false ∧ Returns last true items
    | _ => Returns last waiting items

variable {convX} {items : List PathItem}

theorem vias_foldl (s : Traversal) : (items.foldl (step convX) s).vias =
    s.vias ++ takenVias convX (if s.hasPending then some s.pending else none) items := by
  induction items generalizing s with
  | nil => exact (append_nil _).symm
  | cons item items ih =>
    rw [foldl_cons, ih]
    cases item with
    | point x y | flushPoint x y ext =>
      cases h : s.hasPending <;> simp [step, addPoint, placePending, h, takenVias]
    | viaData nx ny sx sy => cases h : s.hasPending <;> simp [step, h, takenVias]
    | _ => rfl

theorem putAt_inj {v : DSNetRawVia} {p q : ℤ × ℤ} : v.putAt p = v.putAt q ↔ p = q := by
  simp [DSNetRawVia.putAt, Prod.ext_iff]

theorem length_takenVias_le (last : ℤ × ℤ) (pending : Option DSNetRawVia) :
    (takenVias convX pending items).length ≤ (placedVias convX last pending items).length := by
  induction items generalizing last pending with
  | nil => exact Nat.zero_le _
  | cons item items ih =>
    cases item with
    | point x y | flushPoint x y ext =>
      have hrest := ih (convX x, convX y) none
      cases pending <;> simpa [takenVias, placedVias] using hrest
    | via name =>
      have hrest := ih last (some { viaName := name })
      simp only [takenVias, placedVias, length_append]
      omega
    | _ => exact ih last _

theorem takenVias_eq_iff (last : ℤ × ℤ) (pending : Option DSNetRawVia) :
    takenVias convX pending items = placedVias convX last pending items ↔
      Returns convX last pending.isSome items := by
  induction items generalizing last pending with
  | nil => cases pending <;> simp [takenVias, placedVias, Returns]
  | cons item items ih =>
    cases item with
    | point x y | flushPoint x y ext =>
      have hrest := ih (convX x, convX y) none
      cases pending <;> simp [takenVias, placedVias, Returns, putAt_inj, hrest]
    | via name =>
      cases pending with
      | none => simpa [takenVias, placedVias, Returns] using ih last (some { viaName := name })
      | some v =>
        -- the via that waits is lost, and no other one makes up for it
        refine iff_of_false (fun h => ?_) (by simp [Returns])
        have hle : (takenVias convX (some { viaName := name }) items).length ≤ _ := length_takenVias_le last _
        have hlength := congrArg length h
        simp only [takenVias, placedVias, Option.map_some, Option.toList_some, length_append,
          length_singleton] at hlength
        omega
    | viaData nx ny sx sy =>
      have hrest := ih last (pending.map (·.setData convX nx ny sx sy))
      rwa [Option.isSome_map] at hrest
    | _ => exact ih last pending

theorem takenVias_widths (widths : List ℤ) :
    takenVias convX none (widths.map .width ++ items) = takenVias convX none items := by
  induction widths with
  | nil => rfl
  | cons width widths ih => exact ih

end Fly.Design
