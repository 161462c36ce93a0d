import Fly.Lib.Bytes

/-!
# Files of frames

A frame is a header of fixed size, which says how long the body is, and the body.  A file of frames is
written by appending and read from the front; a file that was cut off anywhere is read up to its last
whole frame.

* `Framing` — a frame format; `encode`, `encodeAll` — a frame, and the file that holds a list of them;
* `split` — reading: the headers and bodies of the whole frames at the front of a file;
* `fitting` — the frames of a list that lie before a cut;
* `split_take_encodeAll` — **reading a cut file gives back exactly the frames before the cut**;
  `flatMap_split_encodeAll` — and all the bytes of a file that was not cut.
-/

namespace Fly.Lib

open List

/-- How a value is laid out: `bodySize` is what a reader takes from the bytes of the header. -/
structure Framing (ρ : Type*) where
  headerSize : ℕ
  headerSize_pos : 0 < headerSize
  header : ρ → Bytes
  body : ρ → Bytes
  bodySize : Bytes → ℕ
  length_header : ∀ r, (header r).length = headerSize

theorem eight_pos : 0 < 8 := by decide

namespace Framing

variable {ρ : Type*} (F : Framing ρ)

def encode (r : ρ) : Bytes := F.header r ++ F.body r

def encodeAll (rs : List ρ) : Bytes := rs.flatMap F.encode

/-- The header of the frame tells the true length of its body. -/
def Sized (r : ρ) : Prop := F.bodySize (F.header r) = (F.body r).length

/-- Read at most `fuel` whole frames. -/
def splitFuel : ℕ → Bytes → List (Bytes × Bytes)
  | 0, _ => []
  | fuel + 1, file =>
    if file.length < F.headerSize then []
    else
      let header := file.take F.headerSize
      let rest := file.drop F.headerSize
      if rest.length < F.bodySize header then []
      else (header, rest.take (F.bodySize header)) :: splitFuel fuel (rest.drop (F.bodySize header))

/-- Read a file.  A frame has at least one byte, so there are no more frames than bytes. -/
def split (file : Bytes) : List (Bytes × Bytes) := F.splitFuel file.length file

/-- The frames that lie wholly before byte `k`. -/
def fitting : List ρ → ℕ → List ρ
  | [], _ => []
  | r :: rs, k =>
    if (F.encode r).length ≤ k then r :: fitting rs (k - (F.encode r).length) else []

variable {F} {rs : List ρ} {k : ℕ}

theorem length_encode (r : ρ) : (F.encode r).length = F.headerSize + (F.body r).length := by
  rw [encode, length_append, F.length_header]

theorem encodeAll_cons (r : ρ) (rs : List ρ) :
    F.encodeAll (r :: rs) = F.encode r ++ F.encodeAll rs := flatMap_cons

theorem fitting_isPrefix (rs : List ρ) (k : ℕ) : F.fitting rs k <+: rs := by
  induction rs generalizing k with
  | nil => exact prefix_rfl
  | cons r rs ih =>
    unfold fitting
    split
    · exact cons_prefix_cons.mpr ⟨rfl, ih _⟩
    · exact nil_prefix

/-- Every list of frames at the front is what lies before some cut. -/
theorem fitting_append_length (rs rest : List ρ) : F.fitting (rs ++ rest) (F.encodeAll rs).length = rs := by
  induction rs with
  | nil =>
    cases rest with
    | nil => rfl
    | cons r rest =>
      have hpos : ¬(F.encode r).length ≤ 0 := by
        rw [length_encode]
        have := F.headerSize_pos
        omega
      exact if_neg hpos
  | cons r rs ih =>
    rw [encodeAll_cons, length_append, cons_append, fitting,
      if_pos (Nat.le_add_right _ _), Nat.add_sub_cancel_left, ih]

variable (F) in
/-- What holds of the frames before every cut holds of every front part of the list, and conversely. -/
theorem forall_fitting_iff {P : List ρ → Prop} :
    (∀ k, P (F.fitting rs k)) ↔ ∀ pre, pre <+: rs → P pre := by
  constructor
  · rintro h pre ⟨post, rfl⟩
    have hcut := h (F.encodeAll pre).length
    rwa [fitting_append_length] at hcut
  · exact fun h k => h _ (fitting_isPrefix rs k)

/-- A frame at the front of the file is read, and reading goes on behind it. -/
theorem splitFuel_encode_append {r : ρ} (hr : F.Sized r) (fuel : ℕ) (rest : Bytes) :
    F.splitFuel (fuel + 1) (F.encode r ++ rest) = (F.header r, F.body r) :: F.splitFuel fuel rest := by
  have hheader : (F.encode r ++ rest).take F.headerSize = F.header r := by
    rw [encode, append_assoc, ← F.length_header r, take_left]
  have hrest : (F.encode r ++ rest).drop F.headerSize = F.body r ++ rest := by
    rw [encode, append_assoc, ← F.length_header r, drop_left]
  have hlong : ¬(F.encode r ++ rest).length < F.headerSize := by
    rw [length_append, length_encode]
    omega
  have hbody : ¬(F.body r ++ rest).length < (F.body r).length := by
    rw [length_append]
    omega
  rw [splitFuel, if_neg hlong]
  simp only [hheader, hrest]
  rw [hr, if_neg hbody, take_left, drop_left]

/-- Less than a whole frame is not read. -/
theorem splitFuel_take_encode {r : ρ} (hr : F.Sized r) (fuel : ℕ)
    (hk : k < (F.encode r).length) : F.splitFuel fuel ((F.encode r).take k) = [] := by
  cases fuel with
  | zero => rfl
  | succ fuel =>
    have hlength : ((F.encode r).take k).length = k := by
      rw [length_take]
      omega
    rw [splitFuel]
    by_cases hshort : ((F.encode r).take k).length < F.headerSize
    · rw [if_pos hshort]
    have hheader : ((F.encode r).take k).take F.headerSize = F.header r := by
      rw [take_take, Nat.min_eq_left (by omega), encode, ← F.length_header r, take_left]
    have hbody : (((F.encode r).take k).drop F.headerSize).length < (F.body r).length := by
      rw [length_encode] at hk
      rw [length_drop]
      omega
    rw [if_neg hshort]
    simp only [hheader]
    rw [hr, if_pos hbody]

theorem splitFuel_take_encodeAll (hrs : ∀ r ∈ rs, F.Sized r) {fuel : ℕ}
    (hfuel : ((F.encodeAll rs).take k).length ≤ fuel) :
    F.splitFuel fuel ((F.encodeAll rs).take k) = (F.fitting rs k).map fun r => (F.header r, F.body r) := by
  induction rs generalizing fuel k with
  | nil =>
    have hempty : (F.encodeAll ([] : List ρ)).take k = [] := by rw [encodeAll]; simp
    rw [hempty]
    cases fuel with
    | zero => rfl
    | succ fuel => exact if_pos F.headerSize_pos
  | cons r rs ih =>
    rw [encodeAll_cons] at hfuel ⊢
    have hr := hrs r mem_cons_self
    by_cases hk : (F.encode r).length ≤ k
    · -- the first frame lies before the cut
      have htake : (F.encode r ++ F.encodeAll rs).take k =
          F.encode r ++ (F.encodeAll rs).take (k - (F.encode r).length) := by
        rw [take_append, take_of_length_le hk]
      rw [htake] at hfuel ⊢
      have hlength : 0 < (F.encode r).length := by
        rw [length_encode]
        have := F.headerSize_pos
        omega
      rw [length_append] at hfuel
      obtain ⟨fuel, rfl⟩ : ∃ fuel', fuel = fuel' + 1 := ⟨fuel - 1, by omega⟩
      rw [splitFuel_encode_append hr, fitting, if_pos hk, map_cons,
        ih (fun r' hr' => hrs r' (mem_cons_of_mem r hr')) (by omega)]
    · -- the cut is inside it
      have htake : (F.encode r ++ F.encodeAll rs).take k = (F.encode r).take k :=
        take_append_of_le_length (by omega)
      rw [htake, splitFuel_take_encode hr fuel (by omega), fitting, if_neg hk, map_nil]

/-- **Reading a cut file gives back exactly the frames before the cut.** -/
theorem split_take_encodeAll (hrs : ∀ r ∈ rs, F.Sized r) (k : ℕ) :
    F.split ((F.encodeAll rs).take k) = (F.fitting rs k).map fun r => (F.header r, F.body r) :=
  splitFuel_take_encodeAll hrs le_rfl

theorem flatMap_split_encodeAll (hrs : ∀ r ∈ rs, F.Sized r) :
    ((F.split (F.encodeAll rs)).flatMap fun x => x.1 ++ x.2) = F.encodeAll rs := by
  have hall := split_take_encodeAll hrs (F.encodeAll rs).length
  have hfit := fitting_append_length (F := F) rs []
  rw [append_nil] at hfit
  rw [take_length, hfit] at hall
  rw [hall, flatMap_map]
  rfl

end Framing

end Fly.Lib
