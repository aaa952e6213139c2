import Mathlib.Algebra.BigOperators.Group.Finset.Basic
import Mathlib.Algebra.BigOperators.Ring.Finset
import Mathlib.Algebra.Field.ZMod
import Mathlib.Tactic.Ring

namespace RangeCheck

variable {F : Type*} [CommRing F]

/-- The value of `m` little-endian bits, read in the ring. -/
def recompose (bit : Nat → F) (m : Nat) : F :=
  ∑ k ∈ Finset.range m, bit k * 2 ^ k

theorem recompose_succ (bit : Nat → F) (m : Nat) :
    recompose bit (m + 1) = recompose bit m + bit m * 2 ^ m :=
  Finset.sum_range_succ _ m

theorem recompose_congr {left right : Nat → F} {m : Nat} (same : ∀ k < m, left k = right k) :
    recompose left m = recompose right m :=
  Finset.sum_congr rfl fun k member => by rw [same k (Finset.mem_range.mp member)]

theorem bit_cases [NoZeroDivisors F] {b : F} (boolean : b * (b - 1) = 0) : b = 0 ∨ b = 1 :=
  (mul_eq_zero.mp boolean).imp_right sub_eq_zero.mp

/-- Boolean bits recompose to a natural number below `2 ^ m`. The ring may
wrap around; the natural number witnessing the bound does not. -/
theorem recompose_bounded [NoZeroDivisors F] {bit : Nat → F} {m : Nat}
    (boolean : ∀ k < m, bit k * (bit k - 1) = 0) : ∃ n : Nat, n < 2 ^ m ∧ recompose bit m = (n : F) := by
  induction m with
  | zero => exact ⟨0, by simp, by simp [recompose]⟩
  | succ m ih =>
    obtain ⟨n, bound, value⟩ := ih (fun k below => boolean k (by omega))
    rw [recompose_succ, value]
    rcases bit_cases (boolean m (Nat.lt_succ_self m)) with clear | set
    · exact ⟨n, by omega, by rw [clear]; ring⟩
    · exact ⟨n + 2 ^ m, by omega, by rw [set]; push_cast; ring⟩

theorem recompose_of_high_clear {bit : Nat → F} (low high : Nat)
    (clear : ∀ k, low ≤ k → k < low + high → bit k = 0) :
    recompose bit (low + high) = recompose bit low := by
  induction high with
  | zero => rfl
  | succ high ih =>
    rw [← Nat.add_assoc, recompose_succ, ih (fun k above below => clear k above (by omega)),
      clear _ (by omega) (by omega)]
    ring

/-- The binary digits of a natural number recompose to its residue. -/
theorem recompose_digits (n m : Nat) :
    recompose (fun k => ((n / 2 ^ k % 2 : Nat) : F)) m = ((n % 2 ^ m : Nat) : F) := by
  induction m with
  | zero => simp [recompose, Nat.mod_one]
  | succ m ih =>
    rw [recompose_succ, ih, Nat.mod_pow_succ]
    push_cast
    ring

theorem digit_boolean (n k : Nat) : ((n / 2 ^ k % 2 : Nat) : F) * (((n / 2 ^ k % 2 : Nat) : F) - 1) = 0 := by
  rcases Nat.mod_two_eq_zero_or_one (n / 2 ^ k) with clear | set
  · simp [clear]
  · simp [set]

end RangeCheck
