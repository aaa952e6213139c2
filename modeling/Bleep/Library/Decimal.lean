import Bleep.Library.OrderedStore
import Mathlib.Tactic.IntervalCases

namespace Decimal

open OrderedStore List Nat String UInt8

/-- A number in a fixed count of decimal digits, leading zeros included, as
ASCII bytes. -/
def fixed : Nat → Nat → List UInt8
  | 0, _ => []
  | width + 1, n => fixed width (n / 10) ++ [ofNat (48 + n % 10)]

@[simp] theorem fixed_length (width n : Nat) : (fixed width n).length = width := by
  induction width generalizing n with
  | zero => rfl
  | succ width ih => rw [fixed, List.length_append, ih, List.length_singleton]

theorem toNat_digit (n : Nat) : (ofNat (48 + n % 10)).toNat = 48 + n % 10 := by
  have small : 48 + n % 10 < 256 := by omega
  exact toNat_ofNat_of_lt' small

variable {n width : Nat}

theorem fixed_injective {m} (left : m < 10 ^ width) (right : n < 10 ^ width)
    (same : fixed width m = fixed width n) : m = n := by
  induction width generalizing m n with
  | zero => omega
  | succ width ih =>
    obtain ⟨front, last⟩ := append_inj' same rfl
    have digit := congrArg toNat (cons.inj last).1
    rw [toNat_digit, toNat_digit] at digit
    have rest := ih (by omega) (by omega) front
    omega

/-- Among keys of one length the first difference decides. -/
theorem le_append {xs ys a b} (length : xs.length = ys.length)
    (front : le xs ys = true) (last : xs = ys → a.toNat ≤ b.toNat) :
    le (xs ++ [a]) (ys ++ [b]) = true := by
  induction xs generalizing ys with
  | nil =>
    obtain rfl := length_eq_zero_iff.mp length.symm
    have ordered := last rfl
    simp only [nil_append, le, Bool.or_eq_true, Bool.and_eq_true, decide_eq_true_eq, beq_iff_eq, and_true]
    omega
  | cons x xs ih =>
    cases ys with
    | nil => cases length
    | cons y ys =>
      simp only [cons_append, le, Bool.or_eq_true, Bool.and_eq_true, decide_eq_true_eq, beq_iff_eq] at front ⊢
      rcases front with less | ⟨same, inner⟩
      · exact .inl less
      · refine .inr ⟨same, ih (succ.inj length) inner fun equal => last ?_⟩
        rw [UInt8.toNat_inj.mp same, equal]

/-- The byte order of fixed-width decimals is the order of the numbers. -/
theorem le_fixed {m} (bound : n < 10 ^ width) (ordered : m ≤ n) : le (fixed width m)
    (fixed width n) = true := by
  induction width generalizing m n with
  | zero => rfl
  | succ width ih =>
    have front : m / 10 ≤ n / 10 := Nat.div_le_div_right ordered
    refine le_append (by simp) (ih (by omega) front) fun same => ?_
    have equal := fixed_injective (by omega) (by omega) same
    rw [toNat_digit, toNat_digit]
    omega

/-- The characters of a number padded with zeros on the left. -/
def padded (width n : Nat) : List Char :=
  List.replicate (width - (Nat.toDigits 10 n).length) '0' ++ Nat.toDigits 10 n

theorem padded_succ (positive : 0 < width) (n : Nat) :
    padded (width + 1) n = padded width (n / 10) ++ [(n % 10).digitChar] := by
  obtain ⟨width, rfl⟩ : ∃ w, width = w + 1 := ⟨width - 1, by omega⟩
  unfold padded
  rw [toDigits_eq_if (b := 10) (n := n) (by omega)]
  split
  · rename_i small
    have zero : n / 10 = 0 := by omega
    have whole : n % 10 = n := mod_eq_of_lt small
    rw [zero, whole, toDigits_zero]
    simp [List.replicate_succ']
  · simp [List.append_assoc]

theorem utf8_digitChar {d} (digit : d < 10) : String.utf8EncodeChar d.digitChar = [ofNat (48 + d)] := by
  interval_cases d <;> rfl

theorem utf8_padded (bound : n < 10 ^ (width + 1)) :
    (padded (width + 1) n).flatMap String.utf8EncodeChar = fixed (width + 1) n := by
  induction width generalizing n with
  | zero =>
    have small : n < 10 := by omega
    have digits : toDigits 10 n = [n.digitChar] := by rw [toDigits_eq_if (by omega), if_pos small]
    rw [padded, digits]
    simp [utf8_digitChar small, fixed, mod_eq_of_lt small]
  | succ width ih =>
    have peeled : fixed (width + 1 + 1) n = fixed (width + 1) (n / 10) ++ [ofNat (48 + n % 10)] := rfl
    rw [peeled, padded_succ (succ_pos width), flatMap_append, ih (by omega), flatMap_singleton,
      utf8_digitChar (mod_lt n (by omega))]

theorem toList_pushn (k : Nat) : ("".pushn '0' k).toList = List.replicate k '0' := by
  induction k with
  | zero => rfl
  | succ k ih =>
    rw [String.pushn_eq_repeat_push] at ih ⊢
    rw [Nat.repeat, String.toList_push, ih, List.replicate_succ']

theorem utf8_format (bound : n < 10 ^ (width + 1)) :
    ("".pushn '0' (width + 1 - (toString n).length) ++ toString n).toUTF8.data.toList = fixed (width + 1) n := by
  have chars : ("".pushn '0' (width + 1 - (toString n).length) ++ toString n).toList = padded (width + 1) n := by
    rw [toList_append, toList_pushn, toString_eq_ofList_toDigits, toList_ofList, length_ofList, padded]
  rw [← utf8_padded bound, ← chars]
  generalize "".pushn '0' (width + 1 - (toString n).length) ++ toString n = text
  have encoded := @String.utf8Encode_toList text
  rw [toUTF8, ← encoded]
  exact toList_data_toByteArray

end Decimal
