import Mathlib.Algebra.Field.ZMod
import Mathlib.NumberTheory.LucasPrimality
import Mathlib.Tactic.NormNum.Prime
import Mathlib.Tactic.ReduceModChar

namespace Bleep

open Nat

theorem prime_18053749339 : Nat.Prime 18053749339 := by
  refine lucas_primality _ 3 (by reduce_mod_char) ?_
  intro q prime divides
  have factors : q ∣ 2 * (3 * (157 * 19165339)) := by simpa using divides
  simp only [prime.dvd_mul, prime_dvd_prime_iff_eq prime (by norm_num : Nat.Prime 2),
    prime_dvd_prime_iff_eq prime (by norm_num : Nat.Prime 3),
    prime_dvd_prime_iff_eq prime (by norm_num : Nat.Prime 157),
    prime_dvd_prime_iff_eq prime (by norm_num : Nat.Prime 19165339)] at factors
  rcases factors with rfl | rfl | rfl | rfl <;> norm_num only <;> reduce_mod_char <;> decide

/-- The modulus `2^128 - 45 * 2^40 + 1` of the `f128` field the proofs live in. -/
def f128Modulus : Nat := 340282366920938463463374557953744961537

/-- Lucas certificate: 3 generates the multiplicative group, whose order is
`2^40 * 29 * 181 * 286619 * 11394379 * 18053749339`. -/
theorem f128Modulus_prime : Nat.Prime f128Modulus := by
  unfold f128Modulus
  refine lucas_primality _ 3 (by reduce_mod_char) ?_
  intro q prime divides
  have factors : q ∣ 2 ^ 40 * (29 * (181 * (286619 * (11394379 * 18053749339)))) := by
    simpa using divides
  have two : q ∣ 2 ^ 40 ↔ q = 2 := by
    rw [prime.prime.dvd_pow_iff_dvd (by decide)]
    exact prime_dvd_prime_iff_eq prime prime_two
  simp only [prime.dvd_mul, two, prime_dvd_prime_iff_eq prime (by norm_num : Nat.Prime 29),
    prime_dvd_prime_iff_eq prime (by norm_num : Nat.Prime 181),
    prime_dvd_prime_iff_eq prime (by norm_num : Nat.Prime 286619),
    prime_dvd_prime_iff_eq prime (by norm_num : Nat.Prime 11394379),
    prime_dvd_prime_iff_eq prime prime_18053749339] at factors
  rcases factors with rfl | rfl | rfl | rfl | rfl | rfl <;> norm_num only <;> reduce_mod_char <;> decide

instance : Fact (Nat.Prime f128Modulus) := ⟨f128Modulus_prime⟩

/-- Elements of the trace field. `BaseElement::new` and `BaseElement::from`
are the cast of a natural number, `as_int` is `ZMod.val`. -/
abbrev BaseElement := ZMod f128Modulus

end Bleep
