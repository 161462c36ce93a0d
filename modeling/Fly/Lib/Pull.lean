import Fly.Lib.Bytes

/-!
# Sources that hand out bytes in pieces

A source is asked for a number of bytes and answers with some of them, with none (its end), or with an
error.  A reader that needs an exact number asks again until it has them.

* `Source` — a source with its state; `Window`, `Source.bounded` — the same, cut off after a number of
  bytes, with what has been read;
* `pullExact` — the loop of the reader; it notes when it holds only a part of what it wanted;
* `pullExact_spec` — what the loop returns, and what it has taken from the source.
-/

namespace Fly.Lib

open List Nat

structure Source (σ : Type*) where
  /-- `none` is an error, the empty piece is the end -/
  pull : σ → ℕ → Option Bytes × σ
  pull_length : ∀ s n, ((pull s n).1.getD []).length ≤ n

namespace Source

variable {σ : Type*} (S : Source σ)

def piece (s : σ) (n : ℕ) : Bytes := (S.pull s n).1.getD []

/-- `taken` is what has been handed out up to a state. -/
def Takes (taken : σ → Bytes) : Prop := ∀ s n, taken (S.pull s n).2 = taken s ++ S.piece s n

end Source

/-- A source that may be read up to `area` bytes, with what has been read. -/
structure Window (σ : Type*) (area : ℕ) where
  source : σ
  taken : Bytes
  length_taken : taken.length ≤ area

namespace Source

variable {σ : Type*} (S : Source σ)

/-- At most `area` bytes of the source. -/
def bounded (area : ℕ) : Source (Window σ area) where
  pull w n :=
    if h : area ≤ w.taken.length then (some [], w)
    else
      let answer := S.pull w.source (min n (area - w.taken.length))
      (answer.1, ⟨answer.2, w.taken ++ answer.1.getD [], by
        have hlength : (answer.1.getD []).length ≤ min n (area - w.taken.length) :=
          S.pull_length w.source _
        rw [length_append]
        omega⟩)
  pull_length w n := by
    split
    · exact zero_le n
    · exact (S.pull_length w.source _).trans (min_le_left _ _)

theorem takes_bounded (area : ℕ) : (S.bounded area).Takes Window.taken := by
  intro w n
  by_cases h : area ≤ w.taken.length
  all_goals simp [piece, bounded, h]

end Source

/-- What a reader has after pulling: the bytes it wanted, if it got them all, and whether it ever held
only a part of them. -/
structure Fetched (σ : Type*) where
  bytes : Option Bytes
  part : Bool
  source : σ

/-- Pull until `n` bytes are there: `got` is what there is, `part` whether there ever was a part. -/
def pullExactFuel {σ : Type*} (S : Source σ) : ℕ → ℕ → Bytes → Bool → σ → Fetched σ
  | 0, n, got, part, s => ⟨if got.length < n then none else some got, part, s⟩
  | fuel + 1, n, got, part, s =>
    if got.length < n then
      let piece := S.piece s (n - got.length)
      let next := (S.pull s (n - got.length)).2
      if piece = [] then ⟨none, part, next⟩
      else pullExactFuel S fuel n (got ++ piece) (part || decide ((got ++ piece).length < n)) next
    else ⟨some got, part, s⟩

/-- Every round brings at least one byte, so `n` rounds are enough. -/
def pullExact {σ : Type*} (S : Source σ) (n : ℕ) (part : Bool) (s : σ) : Fetched σ :=
  pullExactFuel S n n [] part s

section Spec

variable {σ : Type*} {S : Source σ} {taken : σ → Bytes} {n : ℕ} {s : σ}

/-- A round that brings a piece. -/
theorem pullExactFuel_succ {fuel : ℕ} {got : Bytes} {part : Bool} (hlt : got.length < n)
    (hpiece : S.piece s (n - got.length) ≠ []) :
    pullExactFuel S (fuel + 1) n got part s = pullExactFuel S fuel n (got ++ S.piece s (n - got.length))
        (part || decide ((got ++ S.piece s (n - got.length)).length < n))
        (S.pull s (n - got.length)).2 := by
  rw [pullExactFuel, if_pos hlt]
  exact if_neg hpiece

/-- How the loop may end, started with `got` in hand. -/
def Ends (n : ℕ) (got : Bytes) (part : Bool) (before : Bytes) (taken : σ → Bytes) (f : Fetched σ) :
    Prop :=
  ∃ more, taken f.source = before ++ more ∧ ((f.bytes = some (got ++ more) ∧ (got ++ more).length = n) ∨
      f.bytes = none ∧ (got ++ more).length < n ∧ f.part = (part || decide (more ≠ [])))

theorem pullExactFuel_ends (hS : S.Takes taken) (fuel n : ℕ) (got : Bytes) (part : Bool) (s : σ)
    (hfuel : n ≤ got.length + fuel) (hgot : got.length ≤ n) :
    Ends n got part (taken s) taken (pullExactFuel S fuel n got part s) := by
  induction fuel generalizing got part s with
  | zero =>
    have hdone : ¬got.length < n := by omega
    rw [pullExactFuel, if_neg hdone]
    exact ⟨[], by simp, .inl (by simp; omega)⟩
  | succ fuel ih =>
    by_cases hlt : got.length < n
    · have htaken := hS s (n - got.length)
      by_cases hpiece : S.piece s (n - got.length) = []
      · -- nothing came: the loop gives up
        rw [pullExactFuel, if_pos hlt]
        rw [if_pos hpiece]
        exact ⟨[], by rw [htaken, hpiece], .inr (by simp [hlt])⟩
      · have hlength : (S.piece s (n - got.length)).length ≤ n - got.length := S.pull_length _ _
        have hpos : 0 < (S.piece s (n - got.length)).length := length_pos_iff.mpr hpiece
        rw [pullExactFuel_succ hlt hpiece]
        generalize S.piece s (n - got.length) = piece at *
        have hsum : (got ++ piece).length = got.length + piece.length := length_append
        obtain ⟨more, hmore, hcases⟩ := ih (got ++ piece) (part || decide ((got ++ piece).length < n))
          (S.pull s (n - got.length)).2 (by omega) (by omega)
        rw [append_assoc] at hcases
        refine ⟨piece ++ more, by rw [hmore, htaken, append_assoc], hcases.imp_right ?_⟩
        rintro ⟨hnone, hshort, hpart⟩
        -- more was wanted than this piece, so a part was noted
        have hfirst : (got ++ piece).length < n := by
          simp only [length_append] at hshort ⊢
          omega
        have hnoted : (part || decide ((got ++ piece).length < n) || decide (more ≠ [])) = true := by
          rw [decide_eq_true hfirst, Bool.or_true, Bool.true_or]
        refine ⟨hnone, hshort, ?_⟩
        rw [hpart, hnoted]
        simp [hpiece]
    · rw [pullExactFuel, if_neg hlt]
      exact ⟨[], by simp, .inl (by simp; omega)⟩

/-- **What the loop returns**: the next `n` bytes of the source, or nothing, and then it has taken fewer
and the mark says whether it has taken any. -/
theorem pullExact_spec (hS : S.Takes taken) (n : ℕ) (part : Bool) (s : σ) :
    ∃ got, taken (pullExact S n part s).source = taken s ++ got ∧
      (((pullExact S n part s).bytes = some got ∧ got.length = n) ∨
        (pullExact S n part s).bytes = none ∧ got.length < n ∧
          (pullExact S n part s).part = (part || decide (got ≠ []))) :=
  pullExactFuel_ends hS n n [] part s (le_add_left n _) (zero_le n)

theorem pullExact_succ {m : ℕ} (part : Bool) (hpiece : S.piece s (m + 1) ≠ []) :
    pullExact S (m + 1) part s = pullExactFuel S m (m + 1) (S.piece s (m + 1))
      (part || decide ((S.piece s (m + 1)).length < m + 1)) (S.pull s (m + 1)).2 :=
  pullExactFuel_succ (Nat.succ_pos m) hpiece

/-- If all comes at once, it is returned. -/
theorem pullExact_of_length_piece (part : Bool) (hpiece : (S.piece s n).length = n)
    (hn : 0 < n) : pullExact S n part s = ⟨some (S.piece s n), part, (S.pull s n).2⟩ := by
  obtain ⟨m, rfl⟩ : ∃ m, n = m + 1 := ⟨n - 1, by omega⟩
  have hne : S.piece s (m + 1) ≠ [] := length_pos_iff.mp (by omega)
  have hfull : ¬(S.piece s (m + 1)).length < m + 1 := by omega
  rw [pullExact_succ part hne, decide_eq_false hfull, Bool.or_false]
  cases m with
  | zero | succ m => rw [pullExactFuel, if_neg hfull]

/-- If anything comes but not all, a part is noted. -/
theorem part_pullExact (part : Bool) (hpiece : S.piece s n ≠ [])
    (hnone : (pullExact S n part s).bytes = none) (hS : S.Takes taken) :
    (pullExact S n part s).part = true := by
  obtain ⟨got, htaken, ⟨hsome, -⟩ | ⟨-, hshort, hpart⟩⟩ := pullExact_spec hS n part s
  · rw [hnone] at hsome
    cases hsome
  obtain ⟨m, rfl⟩ : ∃ m, n = m + 1 := ⟨n - 1, by omega⟩
  obtain ⟨more, hmore, -⟩ := pullExactFuel_ends hS m (m + 1) (S.piece s (m + 1))
    (part || decide ((S.piece s (m + 1)).length < m + 1)) (S.pull s (m + 1)).2
    (by have := length_pos_iff.mpr hpiece; omega) (S.pull_length s (m + 1))
  rw [← pullExact_succ part hpiece, htaken, hS, append_assoc] at hmore
  have hgot : got ≠ [] := by
    rw [append_cancel_left hmore]
    exact append_ne_nil_of_left_ne_nil hpiece more
  rw [hpart, decide_eq_true hgot, Bool.or_true]

/-- If nothing comes, nothing is returned. -/
theorem pullExact_of_piece_eq_nil (hn : 0 < n) (part : Bool)
    (hpiece : S.piece s n = []) : pullExact S n part s = ⟨none, part, (S.pull s n).2⟩ := by
  obtain ⟨m, rfl⟩ : ∃ m, n = m + 1 := ⟨n - 1, by omega⟩
  exact if_pos hpiece

end Spec

end Fly.Lib
