import Mathlib.Data.Countable.Basic
import Mathlib.Logic.Equiv.List
import Mathlib.Tactic.Ring

/-!
# Bytes and fixed-width numbers

A file or a message is a list of bytes.  A number of a fixed width is stored with its least significant
byte first; what does not fit into the width is lost.

* `toLE`, `ofLE` — the two directions; `toBE`, `ofBE` — the same with the most significant byte first;
* `ofLE_toLE` — a number comes back modulo `256 ^ w`, so exactly if it fits; `toLE_ofLE` — so do the bytes;
* `pack`, `unpack` — a record of fixed-width fields, and `unpack_pack`, `pack_unpack`, which say that each
  undoes the other;
* `exists_byteCode` — the values of a countable type can be told apart by bytes.
-/

namespace Fly.Lib

open List Encodable UInt8

abbrev Bytes := List UInt8

/-- The `w` bytes of `n`, least significant first. -/
def toLE : ℕ → ℕ → Bytes
  | 0, _ => []
  | w + 1, n => ofNat n :: toLE w (n / 256)

/-- The number with the given bytes. -/
def ofLE : Bytes → ℕ
  | [] => 0
  | b :: bs => b.toNat + 256 * ofLE bs

@[simp] theorem length_toLE (w n : ℕ) : (toLE w n).length = w := by
  induction w generalizing n with
  | zero => rfl
  | succ w ih => rw [toLE, length_cons, ih]

theorem ofLE_toLE (w n : ℕ) : ofLE (toLE w n) = n % 256 ^ w := by
  induction w generalizing n with
  | zero => rw [toLE, ofLE, pow_zero, Nat.mod_one]
  | succ w ih =>
    have hbyte : (ofNat n).toNat = n % 256 := toNat_ofNat'
    rw [toLE, ofLE, ih, hbyte, pow_succ', Nat.mod_mul]

theorem ofLE_toLE_of_lt {w n : ℕ} (h : n < 256 ^ w) : ofLE (toLE w n) = n := by
  rw [ofLE_toLE, Nat.mod_eq_of_lt h]

theorem ofLE_lt (bs : Bytes) : ofLE bs < 256 ^ bs.length := by
  induction bs with
  | nil => exact Nat.zero_lt_one
  | cons b bs ih =>
    have hb := b.toNat_lt
    rw [ofLE, length_cons, pow_succ]
    omega

theorem ofLE_take_lt (bs : Bytes) (w : ℕ) : ofLE (bs.take w) < 256 ^ w :=
  (ofLE_lt _).trans_le (Nat.pow_le_pow_right (by decide) (length_take_le _ _))

theorem toLE_ofLE (bs : Bytes) : toLE bs.length (ofLE bs) = bs := by
  induction bs with
  | nil => rfl
  | cons b bs ih =>
    have hb := b.toNat_lt
    have hlow : ofNat (b.toNat + 256 * ofLE bs) = b := by
      rw [← UInt8.toNat_inj, UInt8.toNat_ofNat']
      omega
    have hhigh : (b.toNat + 256 * ofLE bs) / 256 = ofLE bs := by omega
    rw [ofLE, length_cons, toLE, hlow, hhigh, ih]

/-- The `w` bytes of `n`, most significant first. -/
def toBE (w n : ℕ) : Bytes := (toLE w n).reverse

def ofBE (bs : Bytes) : ℕ := ofLE bs.reverse

@[simp] theorem length_toBE (w n : ℕ) : (toBE w n).length = w := by rw [toBE, length_reverse, length_toLE]

theorem ofBE_toBE_of_lt {w n : ℕ} (h : n < 256 ^ w) : ofBE (toBE w n) = n := by
  rw [ofBE, toBE, reverse_reverse, ofLE_toLE_of_lt h]

/-! ### Records of fixed-width fields -/

/-- The fields one after another; a field is its width and its value. -/
def pack (fields : List (ℕ × ℕ)) : Bytes := fields.flatMap fun f => toLE f.1 f.2

/-- The values of fields of the given widths, from the front. -/
def unpack : List ℕ → Bytes → List ℕ
  | [], _ => []
  | w :: ws, data => ofLE (data.take w) :: unpack ws (data.drop w)

theorem pack_cons (f : ℕ × ℕ) (fields : List (ℕ × ℕ)) : pack (f :: fields) = toLE f.1 f.2 ++ pack fields :=
  flatMap_cons

theorem length_pack (fields : List (ℕ × ℕ)) : (pack fields).length = (fields.map Prod.fst).sum := by
  induction fields with
  | nil => rfl
  | cons f fields ih => rw [pack_cons, length_append, length_toLE, ih, map_cons, sum_cons]

theorem unpack_pack (fields : List (ℕ × ℕ)) (h : ∀ f ∈ fields, f.2 < 256 ^ f.1) (rest : Bytes) :
    unpack (fields.map Prod.fst) (pack fields ++ rest) = fields.map Prod.snd := by
  induction fields with
  | nil => rfl
  | cons f fields ih =>
    have hfirst : (pack (f :: fields) ++ rest).take f.1 = toLE f.1 f.2 := by
      rw [pack_cons, append_assoc, take_left' (length_toLE _ _)]
    have hrest : (pack (f :: fields) ++ rest).drop f.1 = pack fields ++ rest := by
      rw [pack_cons, append_assoc, drop_left' (length_toLE _ _)]
    rw [map_cons, unpack, hfirst, hrest, ofLE_toLE_of_lt (h f mem_cons_self),
      ih fun g hg => h g (mem_cons_of_mem f hg), map_cons]

/-- The fields that were read make up the bytes they were read from. -/
theorem pack_unpack (ws : List ℕ) {data : Bytes} (h : ws.sum ≤ data.length) :
    pack (ws.zip (unpack ws data)) = data.take ws.sum := by
  induction ws generalizing data with
  | nil => rfl
  | cons w ws ih =>
    rw [sum_cons] at h
    have hfirst : toLE w (ofLE (data.take w)) = data.take w := by
      have hlength : (data.take w).length = w := by rw [length_take]; omega
      have hback := toLE_ofLE (data.take w)
      rwa [hlength] at hback
    rw [unpack, zip_cons_cons, pack_cons, hfirst, ih (by rw [length_drop]; omega), sum_cons, take_add]

/-! ### Codes -/

instance countable_string : Countable String := by
  have hchar : Function.Injective Char.toNat := fun a b h => by
    rw [← Char.ofNat_toNat a, h, Char.ofNat_toNat]
  have : Countable Char := hchar.countable
  exact Function.Injective.countable (f := String.toList) fun a b h => String.toList_injective h

/-- Some code stores a given value in one byte. -/
theorem exists_byteCode {α : Type*} [Countable α] (short : α) :
    ∃ (encode : α → Bytes) (decode : Bytes → Option α), (∀ a, decode (encode a) = some a) ∧
      (∀ a, encode a ≠ []) ∧ encode short = [0] := by
  classical
  have := ofCountable α
  refine ⟨fun a => if a = short then [0] else 1 :: replicate (encode a) 0,
    fun bytes => if bytes.head? = some 0 then some short else decode (bytes.length - 1),
    fun a => ?_, fun a => ?_, if_pos rfl⟩
  all_goals by_cases h : a = short <;> simp [h]

end Fly.Lib
