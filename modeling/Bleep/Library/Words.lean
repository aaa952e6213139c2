import Mathlib.Algebra.Ring.Nat

namespace Words

open BitVec Nat Option List BitVec

variable {w : Nat}

variable (a b : BitVec w)

/-- Unsigned addition that reports an overflow instead of wrapping. -/
def checkedAdd : Option (BitVec w) :=
  if a.toNat + b.toNat < 2 ^ w then some (a + b) else none

def checkedSub : Option (BitVec w) :=
  if b.toNat ≤ a.toNat then some (a - b) else none

def checkedMul : Option (BitVec w) :=
  if a.toNat * b.toNat < 2 ^ w then some (a * b) else none

def saturatingAdd : BitVec w :=
  if a.toNat + b.toNat < 2 ^ w then a + b else allOnes w

def saturatingSub : BitVec w :=
  if b.toNat ≤ a.toNat then a - b else 0#w

def saturatingMul : BitVec w :=
  if a.toNat * b.toNat < 2 ^ w then a * b else allOnes w

/-- `pow`, whose result wraps. -/
def wrappingPow (a : BitVec w) (n : Nat) : BitVec w := BitVec.ofNat w (a.toNat ^ n)

def minimum : BitVec w := if a ≤ b then a else b

def maximum : BitVec w := if a ≤ b then b else a

@[simp] theorem toNat_maximum : (maximum a b).toNat = max a.toNat b.toNat := by
  unfold maximum
  split
  · rename_i below
    exact (Nat.max_eq_right (le_def.mp below)).symm
  · rename_i above
    rw [le_def] at above
    omega

theorem toNat_minimum : (minimum a b).toNat = min a.toNat b.toNat := by
  unfold minimum
  split
  · rename_i below
    exact (Nat.min_eq_left (le_def.mp below)).symm
  · rename_i above
    rw [le_def] at above
    omega

/-- Two thirds, rounded down, computed without doubling the word. -/
theorem toNat_twoThirds (n : BitVec 128) : (n / 3 * 2 + n % 3 * 2 / 3).toNat = n.toNat * 2 / 3 := by
  simp only [toNat_add, toNat_mul, toNat_udiv, toNat_umod, reduceToNat]
  have left : n.toNat / 3 * 2 % 2 ^ 128 = n.toNat / 3 * 2 := mod_eq_of_lt (by omega)
  have right : n.toNat % 3 * 2 % 2 ^ 128 = n.toNat % 3 * 2 := mod_eq_of_lt (by omega)
  rw [left, right, mod_eq_of_lt (by omega)]
  omega

variable {a b : BitVec w}

theorem checkedAdd_of_lt (fits : a.toNat + b.toNat < 2 ^ w) : checkedAdd a b = some (a + b) :=
  if_pos fits

theorem checkedAdd_of_not (overflow : ¬a.toNat + b.toNat < 2 ^ w) : checkedAdd a b = none :=
  if_neg overflow

theorem checkedSub_of_le (covered : b.toNat ≤ a.toNat) : checkedSub a b = some (a - b) :=
  if_pos covered

theorem checkedSub_of_not (short : ¬b.toNat ≤ a.toNat) : checkedSub a b = none :=
  if_neg short

theorem checkedAdd_eq_some {c} : checkedAdd a b = some c ↔ a.toNat + b.toNat = c.toNat := by
  unfold checkedAdd
  split
  · rename_i fits
    rw [some.injEq, ← toNat_inj, toNat_add, mod_eq_of_lt fits]
  · simp only [reduceCtorEq, false_iff]
    omega

@[simp] theorem toNat_saturatingSub (a b : BitVec w) :
    (saturatingSub a b).toNat = a.toNat - b.toNat := by
  unfold saturatingSub
  split
  · rename_i covered
    exact toNat_sub_of_le (le_def.mpr covered)
  · simp only [toNat_ofNat, Nat.zero_mod]
    omega

@[simp] theorem toNat_saturatingAdd (a b : BitVec w) :
    (saturatingAdd a b).toNat = min (a.toNat + b.toNat) (2 ^ w - 1) := by
  unfold saturatingAdd
  split
  · rename_i fits
    rw [toNat_add, Nat.mod_eq_of_lt fits]
    omega
  · rw [toNat_allOnes]
    omega

@[simp] theorem toNat_saturatingMul (a b : BitVec w) :
    (saturatingMul a b).toNat = min (a.toNat * b.toNat) (2 ^ w - 1) := by
  unfold saturatingMul
  split
  · rename_i fits
    rw [toNat_mul, Nat.mod_eq_of_lt fits]
    omega
  · rw [toNat_allOnes]
    omega

theorem toNat_wrappingPow_of_lt {a : BitVec w} {n} (fits : a.toNat ^ n < 2 ^ w) :
    (wrappingPow a n).toNat = a.toNat ^ n := by
  rw [wrappingPow, toNat_ofNat, mod_eq_of_lt fits]

theorem saturatingAdd_eq_self : saturatingAdd a b = a ↔ b = 0 ∨ a = allOnes w := by
  have zero : (0 : BitVec w).toNat = 0 := toNat_zero
  rw [← toNat_inj, toNat_saturatingAdd, ← toNat_inj, ← toNat_inj, toNat_allOnes, zero]
  omega

theorem saturatingAdd_eq_zero : saturatingAdd a b = 0 ↔ a = 0 ∧ b = 0 := by
  have zero : (0 : BitVec w).toNat = 0 := toNat_zero
  rw [← toNat_inj, ← toNat_inj, ← toNat_inj, toNat_saturatingAdd, zero]
  omega

theorem saturatingSub_eq_self : saturatingSub a b = a ↔ b = 0 ∨ a = 0 := by
  have zero : (0 : BitVec w).toNat = 0 := toNat_zero
  rw [← toNat_inj, toNat_saturatingSub, ← toNat_inj, ← toNat_inj, zero]
  omega

theorem toNat_foldl_add (list : List (BitVec w)) :
    (list.foldl (· + ·) 0).toNat = (list.map BitVec.toNat).sum % 2 ^ w := by
  have general (start : BitVec w) :
      (list.foldl (· + ·) start).toNat = (start.toNat + (list.map BitVec.toNat).sum) % 2 ^ w := by
    induction list generalizing start with
    | nil => exact (mod_eq_of_lt start.isLt).symm
    | cons a list ih =>
      rw [List.foldl_cons, ih, BitVec.toNat_add, List.map_cons, List.sum_cons, Nat.mod_add_mod, Nat.add_assoc]
  rw [general 0]
  simp

theorem foldlM_checkedAdd_eq_some {α : Type} {f : α → BitVec w} {list : List α} {total : BitVec w} :
    list.foldlM (fun sum a => checkedAdd sum (f a)) 0 = some total ↔
      (list.map fun a => (f a).toNat).sum = total.toNat := by
  have general (start : BitVec w) : list.foldlM (fun sum a => checkedAdd sum (f a)) start = some total ↔
      start.toNat + (list.map fun a => (f a).toNat).sum = total.toNat := by
    induction list generalizing start with
    | nil => simp [toNat_inj]
    | cons a list ih =>
      rw [foldlM_cons, map_cons, sum_cons]
      by_cases fits : start.toNat + (f a).toNat < 2 ^ w
      · have sum : (start + f a).toNat = start.toNat + (f a).toNat := by
          rw [toNat_add, mod_eq_of_lt fits]
        rw [checkedAdd_of_lt fits, bind_eq_bind, bind_some, ih, sum, Nat.add_assoc]
      · have bound := total.isLt
        rw [checkedAdd_of_not fits, bind_eq_bind, bind_none]
        simp only [reduceCtorEq, false_iff]
        omega
  rw [general 0]
  simp

variable (k n : Nat)

/-- The low `k` bytes of a number, least significant first. -/
def leBytes : List UInt8 :=
  (range k).map fun i => UInt8.ofNat (n / 256 ^ i)

def fromLeBytes : List UInt8 → Nat
  | [] => 0
  | byte :: rest => byte.toNat + 256 * fromLeBytes rest

@[simp] theorem leBytes_length : (leBytes k n).length = k := by
  simp [leBytes]

theorem leBytes_succ : leBytes (k + 1) n = UInt8.ofNat n :: leBytes k (n / 256) := by
  rw [leBytes, leBytes, List.range_succ_eq_map, List.map_cons, List.map_map]
  congr 1
  · simp
  · refine List.map_congr_left fun i _ => ?_
    rw [Function.comp_apply, Nat.succ_eq_add_one, Nat.pow_succ', Nat.div_div_eq_div_mul]

theorem fromLeBytes_leBytes : fromLeBytes (leBytes k n) = n % 256 ^ k := by
  induction k generalizing n with
  | zero => rw [pow_zero, mod_one]; rfl
  | succ k ih =>
    have split : n % 256 ^ (k + 1) = n % 256 + 256 * (n / 256 % 256 ^ k) := by
      rw [Nat.pow_succ', mod_mul]
    rw [leBytes_succ, fromLeBytes, ih, UInt8.toNat_ofNat', split]

theorem fromLeBytes_lt (bytes : List UInt8) : fromLeBytes bytes < 256 ^ bytes.length := by
  induction bytes with
  | nil => exact Nat.one_pos
  | cons byte rest ih =>
    have digit := byte.toNat_lt
    rw [fromLeBytes, length_cons, Nat.pow_succ']
    omega

theorem leBytes_fromLeBytes (bytes : List UInt8) : leBytes bytes.length (fromLeBytes bytes) = bytes := by
  induction bytes with
  | nil => rfl
  | cons byte rest ih =>
    have digit := byte.toNat_lt
    rw [length_cons, leBytes_succ, fromLeBytes, Nat.add_mul_div_left _ _ (by decide), Nat.div_eq_of_lt digit,
      Nat.zero_add, ih]
    congr 1
    exact UInt8.toNat_inj.mp (by simp)

/-- The low `k` bytes of a number, most significant first. -/
def beBytes : List UInt8 := (leBytes k n).reverse

@[simp] theorem beBytes_length : (beBytes k n).length = k := by
  simp [beBytes]

theorem beBytes_inj {k m n} (small : m < 256 ^ k) (small' : n < 256 ^ k) (same : beBytes k m = beBytes k n) :
    m = n := by
  have values := congrArg fromLeBytes (reverse_inj.mp same)
  rwa [fromLeBytes_leBytes, fromLeBytes_leBytes, mod_eq_of_lt small, mod_eq_of_lt small'] at values

end Words
