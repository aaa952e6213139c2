import Mathlib.Algebra.BigOperators.Group.List.Basic
import Mathlib.Algebra.Ring.Nat
import Mathlib.Data.Finset.Card
import Mathlib.Data.Finset.Range

namespace Bitfield

open List Nat

variable (bits : List UInt8)

/-- Bit `p` of a field of bytes, which starts with the lowest bit of the first
byte. -/
def bit (p : ℕ) : Bool := (bits.getD (p / 8) 0).toNat.testBit (p % 8)

/-- `count_ones` of a byte. -/
def countOnes (byte : UInt8) : ℕ := (List.range 8).countP byte.toNat.testBit

def ones : ℕ := (bits.map countOnes).sum

/-- The bytes of the second field are put into those of the first as far as
both go. -/
def orInto : List UInt8 → List UInt8 → List UInt8
  | a :: as, b :: bs => (a ||| b) :: orInto as bs
  | as, _ => as

/-- `Vec::resize` with zeros. -/
def resize (count : ℕ) : List UInt8 := bits.take count ++ List.replicate (count - bits.length) 0

def setBit (p : ℕ) : List UInt8 := bits.modify (p / 8) (· ||| UInt8.ofNat (2 ^ (p % 8)))

theorem bit_nil (p : ℕ) : bit [] p = false := by simp [bit]

theorem bit_replicate (count p : ℕ) : bit (List.replicate count 0) p = false := by
  have zero : (replicate count (0 : UInt8)).getD (p / 8) 0 = 0 := by
    rw [getD_eq_getElem?_getD, getElem?_replicate]
    split <;> rfl
  rw [bit, zero]
  simp

variable {bits : List UInt8}

theorem bit_of_length_le {p} (beyond : bits.length ≤ p / 8) : bit bits p = false := by
  have zero : bits.getD (p / 8) 0 = 0 := by
    rw [getD_eq_getElem?_getD, getElem?_eq_none beyond]
    rfl
  rw [bit, zero]
  simp

variable (xs ys : List UInt8)

@[simp] theorem length_orInto : (orInto xs ys).length = xs.length := by
  induction xs generalizing ys with
  | nil => cases ys <;> rfl
  | cons x xs ih =>
    cases ys with
    | nil => rfl
    | cons y ys => simp [orInto, ih]

theorem getD_orInto (i : ℕ) (inside : i < xs.length) :
    (orInto xs ys).getD i 0 = xs.getD i 0 ||| ys.getD i 0 := by
  induction xs generalizing ys i with
  | nil => cases inside
  | cons x xs ih =>
    cases ys with
    | nil => simp [orInto]
    | cons y ys =>
      cases i with
      | zero => rfl
      | succ i => exact ih ys i (lt_of_succ_lt_succ inside)

theorem bit_orInto (p : ℕ) :
    bit (orInto xs ys) p = (bit xs p || (bit ys p && decide (p / 8 < xs.length))) := by
  by_cases inside : p / 8 < xs.length
  · rw [bit, getD_orInto xs ys _ inside, UInt8.toNat_or, testBit_or]
    simp [bit, inside]
  · have beyond := not_lt.mp inside
    rw [bit_of_length_le (by rwa [length_orInto]), bit_of_length_le beyond]
    simp [inside]

theorem length_resize (bits : List UInt8) (count : ℕ) : (resize bits count).length = count := by
  simp only [resize, length_append, length_take, length_replicate]
  omega

theorem bit_resize {count} (grows : bits.length ≤ count) (p : ℕ) : bit (resize bits count) p = bit bits p := by
  have same : (resize bits count).getD (p / 8) 0 = bits.getD (p / 8) 0 := by
    rw [resize, take_of_length_le grows, getD_eq_getElem?_getD, getD_eq_getElem?_getD, getElem?_append]
    split
    · rfl
    · rename_i beyond
      rw [getElem?_eq_none (not_lt.mp beyond), getElem?_replicate]
      split <;> rfl
  rw [bit, same, bit]

@[simp] theorem length_setBit (bits : List UInt8) (p : ℕ) : (setBit bits p).length = bits.length := by simp [setBit]

theorem bit_setBit {p q} (set : bit (setBit bits p) q = true) : bit bits q = true ∨ q = p := by
  by_cases here : q / 8 = p / 8
  · have inside : p / 8 < bits.length := by
      by_contra beyond
      rw [bit_of_length_le (by rw [length_setBit, here]; omega)] at set
      cases set
    rw [bit, setBit, here, getD_eq_getElem?_getD, getElem?_modify_eq, getElem?_eq_getElem inside] at set
    have small : 2 ^ (p % 8) < 256 :=
      Nat.pow_lt_pow_right (by omega) (Nat.mod_lt p (by omega) : p % 8 < 8)
    change ((bits[p / 8] ||| UInt8.ofNat (2 ^ (p % 8))).toNat).testBit (q % 8) = true at set
    rw [UInt8.toNat_or, testBit_or, UInt8.toNat_ofNat_of_lt' small, testBit_two_pow,
      Bool.or_eq_true, decide_eq_true_eq] at set
    rcases set with old | new
    · left
      rw [bit, here, getD_eq_getElem?_getD, getElem?_eq_getElem inside]
      exact old
    · right
      omega
  · left
    rw [bit, setBit, getD_eq_getElem?_getD, getElem?_modify_ne _ _ (Ne.symm here)] at set
    exact set

theorem ones_eq_card (bits : List UInt8) :
    ones bits = ((Finset.range (8 * bits.length)).filter fun p => bit bits p = true).card := by
  have counted (bits : List UInt8) : ones bits = (List.range (8 * bits.length)).countP (bit bits) := by
    induction bits with
    | nil => rfl
    | cons byte bits ih =>
      have split : 8 * (byte :: bits).length = 8 + 8 * bits.length := by
        rw [length_cons]
        omega
      have first : (List.range 8).countP (bit (byte :: bits)) = countOnes byte := rfl
      have rest (p : ℕ) : bit (byte :: bits) (8 + p) = bit bits p := by
        have index : (8 + p) / 8 = p / 8 + 1 := by omega
        have offset : (8 + p) % 8 = p % 8 := by omega
        rw [bit, index, offset]
        rfl
      rw [split, range_add, countP_append, first, countP_map]
      have tail : (bit (byte :: bits) ∘ fun p => 8 + p) = bit bits := funext rest
      rw [tail, ← ih]
      rfl
  have decided : (fun p => decide (bit bits p = true)) = bit bits := by
    funext p
    exact Bool.decide_eq_true
  rw [counted, countP_eq_length_filter]
  change _ = ((List.range (8 * bits.length)).filter fun p => decide (bit bits p = true)).length
  rw [decided]

theorem ones_eq_of_bit {xs ys} (same : ∀ p, bit xs p = bit ys p) : ones xs = ones ys := by
  have inside {bits : List UInt8} {p : ℕ} (set : bit bits p = true) : p < 8 * bits.length := by
    by_contra beyond
    rw [bit_of_length_le (by omega)] at set
    cases set
  rw [ones_eq_card, ones_eq_card]
  congr 1
  ext p
  simp only [Finset.mem_filter, Finset.mem_range]
  constructor
  · rintro ⟨-, set⟩
    rw [same] at set
    exact ⟨inside set, set⟩
  · rintro ⟨-, set⟩
    rw [← same] at set
    exact ⟨inside set, set⟩

theorem ones_le {bound} (below : ∀ p, bit bits p = true → p < bound) : ones bits ≤ bound := by
  rw [ones_eq_card]
  calc ((Finset.range (8 * bits.length)).filter fun p => bit bits p = true).card
      ≤ (Finset.range bound).card := by
        refine Finset.card_le_card fun p member => ?_
        exact Finset.mem_range.mpr (below p (Finset.mem_filter.mp member).2)
    _ = bound := Finset.card_range bound

end Bitfield
