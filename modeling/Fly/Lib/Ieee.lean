import Mathlib.Data.Rat.Defs
import Mathlib.Algebra.Order.Ring.Rat

/-!
# IEEE values up to comparison

The timeouts of the source are C++ `float`s that are only ever compared.  `Ieee` keeps exactly what a
comparison can see: a finite value (a rational number, which every finite float is), the two
infinities, and the quiet value that compares false with everything.
-/

namespace Fly.Lib

/-- A floating-point value as comparisons see it. -/
inductive Ieee where
  | nan
  | negInf
  | posInf
  | fin (q : ℚ)
  deriving DecidableEq, Repr

namespace Ieee

/-- `a <= b`; false as soon as one side is `nan`. -/
def le : Ieee → Ieee → Bool
  | nan, _ => false
  | _, nan => false
  | negInf, _ => true
  | _, posInf => true
  | fin p, fin q => decide (p ≤ q)
  | _, _ => false

/-- `a == b`; `nan` is not equal to itself. -/
def eq : Ieee → Ieee → Bool
  | nan, _ => false
  | a, b => decide (a = b)

/-- `a < b`. -/
def lt (a b : Ieee) : Bool := le a b && !eq a b

/-- The literal `0.0f`. -/
def zero : Ieee := fin 0

theorem eq_symm (a b : Ieee) : eq a b = eq b a := by
  cases a <;> cases b <;> simp [eq, eq_comm]

/-- A value equal to `0` passes the test `0 <= t`. -/
theorem zero_le_of_eq_zero {t : Ieee} (h : eq t zero = true) : le zero t = true := by
  cases t with
  | fin q =>
    obtain rfl : q = 0 := by simpa [eq, zero] using h
    simp [le, zero]
  | _ => simp [eq, zero] at h

/-- A strictly negative value fails the test `0 <= t`. -/
theorem not_zero_le_of_lt_zero {t : Ieee} (h : lt t zero = true) : le zero t = false := by
  cases t with
  | nan => rfl
  | negInf => rfl
  | posInf => simp [lt, le, zero] at h
  | fin q =>
    simp only [lt, le, eq, zero, Bool.and_eq_true, decide_eq_true_eq, Bool.not_eq_true',
      decide_eq_false_iff_not, Ieee.fin.injEq] at h
    simp only [le, zero, decide_eq_false_iff_not, not_le]
    exact lt_of_le_of_ne h.1 h.2

end Ieee

end Fly.Lib
