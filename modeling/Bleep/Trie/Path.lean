import Bleep.Bytes
import Mathlib.Data.Vector.Basic

namespace Bleep

open List Nat UInt8

abbrev NodeHash := Hash32

def emptyNode : NodeHash := Vector.replicate 32 0
def trieDepth : Nat := 256

variable (path : Hash32)

variable (depth : Nat)

/-- Bit `depth` of a path, most significant bit first. -/
def bitAt : UInt8 :=
  (path.getD (depth / 8) 0 >>> UInt8.ofNat (7 - depth % 8)) &&& 1

/-- The path with the bits from `depth` on cleared, as the root computation
clears them. -/
def masked : Hash32 :=
  let byte := depth / 8
  let bit := depth % 8
  if byte < 32 then
    Vector.ofFn fun i =>
      if byte + (if bit ≠ 0 then 1 else 0) ≤ i.val then 0
      else if bit ≠ 0 ∧ i.val = byte then path.get i &&& (0xFF <<< UInt8.ofNat (8 - bit))
      else path.get i
  else path

/-- The key of the sibling at `depth`, as the proof generator computes it. -/
def siblingRep : Hash32 :=
  let byteIdx := depth / 8
  let bitInByte := 7 - depth % 8
  let keepMask : UInt8 := if bitInByte = 7 then 0 else 0xFF <<< UInt8.ofNat (bitInByte + 1)
  let sibBit : UInt8 := if bitAt path depth = 0 then 1 <<< UInt8.ofNat bitInByte else 0
  Vector.ofFn fun i =>
    if byteIdx + 1 ≤ i.val then 0
    else if i.val = byteIdx then (path.get i &&& keepMask) ||| sibBit
    else path.get i

/-- The same bit as a Boolean: the two masking routines are specified by it. -/
def pathBit (k : Nat) : Bool := (path.getD (k / 8) 0).toNat.testBit (7 - k % 8)

/-- The first `depth` bits of a path, from the root down. -/
def prefixBits : List Bool := (List.range depth).map (pathBit path)

theorem bitAt_eq (k : Nat) : bitAt path k = if pathBit path k then 1 else 0 := by
  have shift : (UInt8.ofNat (7 - k % 8)).toNat % 8 = 7 - k % 8 := by
    rw [toNat_ofNat']
    omega
  have value : (bitAt path k).toNat = (pathBit path k).toNat := by
    rw [bitAt, pathBit, UInt8.toNat_and, UInt8.toNat_shiftRight, shift, Nat.toNat_testBit, Nat.shiftRight_eq_div_pow]
    exact and_one_is_mod _
  apply UInt8.toNat_inj.mp
  rw [value]
  cases pathBit path k <;> rfl

theorem getD_eq_get {i} (bound : i < 32) : path.getD i 0 = path.get ⟨i, bound⟩ := by
  simp [Vector.getD, Vector.get, bound]

theorem getD_ofFn (f : Fin 32 → UInt8) {i} (bound : i < 32) : (Vector.ofFn f).getD i 0 = f ⟨i, bound⟩ := by
  simp [Vector.getD, bound]

variable {p q : Hash32} {depth : Nat}

theorem ext_pathBit (same : ∀ k < 256, pathBit p k = pathBit q k) : p = q := by
  apply Vector.ext
  intro i bound
  have bytes : p.getD i 0 = q.getD i 0 := by
    apply UInt8.toNat_inj.mp
    apply eq_of_testBit_eq
    intro j
    by_cases low : j < 8
    · have bit := same (8 * i + (7 - j)) (by omega)
      rwa [pathBit, pathBit, show (8 * i + (7 - j)) / 8 = i by omega,
        show 7 - (8 * i + (7 - j)) % 8 = j by omega] at bit
    · have high : 2 ^ 8 ≤ 2 ^ j := Nat.pow_le_pow_right (by decide) (by omega)
      rw [testBit_lt_two_pow (lt_of_lt_of_le (toNat_lt _) high), testBit_lt_two_pow (lt_of_lt_of_le (toNat_lt _) high)]
  simpa [Vector.getD, bound] using bytes

theorem testBit_shifted_mask {s j} (shift : s < 8) (low : j < 8) :
    ((0xFF : UInt8) <<< UInt8.ofNat s).toNat.testBit j = decide (s ≤ j) := by
  have amount : (UInt8.ofNat s).toNat % 8 = s := by
    rw [toNat_ofNat']
    omega
  have ones : ((0xFF : UInt8).toNat) = 2 ^ 8 - 1 := rfl
  rw [UInt8.toNat_shiftLeft, amount, Nat.testBit_mod_two_pow, Nat.testBit_shiftLeft, ones, Nat.testBit_two_pow_sub_one]
  by_cases within : s ≤ j
  · simp [within, low, show j - s < 8 by omega]
  · simp [within]

theorem testBit_shifted_one {s j} (shift : s < 8) (low : j < 8) :
    ((1 : UInt8) <<< UInt8.ofNat s).toNat.testBit j = decide (j = s) := by
  have amount : (UInt8.ofNat s).toNat % 8 = s := by
    rw [toNat_ofNat']
    omega
  rw [UInt8.toNat_shiftLeft, amount, Nat.testBit_mod_two_pow, show (1 : UInt8).toNat = 1 from rfl,
    one_shiftLeft, testBit_two_pow]
  simp [low, eq_comm]

variable (path : Hash32)

/-- The two masking routines agree with the bits they are meant to keep. -/
theorem pathBit_masked {k} (bound : k < 256) :
    pathBit (masked path depth) k = (decide (k < depth) && pathBit path k) := by
  have byte : k / 8 < 32 := by omega
  unfold pathBit masked
  by_cases deep : 256 ≤ depth
  · rw [if_neg (by omega), decide_eq_true (by omega : k < depth), Bool.true_and]
  rw [if_pos (by omega : depth / 8 < 32), getD_ofFn _ byte, getD_eq_get _ byte]
  dsimp only
  by_cases aligned : depth % 8 = 0
  · rw [if_neg (by omega : ¬ (depth % 8 ≠ 0)), if_neg (by omega : ¬ (depth % 8 ≠ 0 ∧ k / 8 = depth / 8))]
    by_cases before : k < depth
    · rw [if_neg (by omega)]
      simp [before]
    · rw [if_pos (by omega)]
      simp [before]
  · rw [if_pos aligned]
    by_cases same : k / 8 = depth / 8
    · rw [if_neg (by omega), if_pos ⟨aligned, same⟩, UInt8.toNat_and, Nat.testBit_and,
        testBit_shifted_mask (by omega) (by omega), Bool.and_comm]
      congr 1
      exact decide_eq_decide.mpr (by omega)
    · rw [if_neg (by omega : ¬ (depth % 8 ≠ 0 ∧ k / 8 = depth / 8))]
      by_cases before : k < depth
      · rw [if_neg (by omega)]
        simp [before]
      · rw [if_pos (by omega)]
        simp [before]

theorem pathBit_siblingRep {k} (bound : k < 256) (shallow : depth < 256) :
    pathBit (siblingRep path depth) k =
      if k < depth then pathBit path k else if k = depth then !pathBit path depth else false := by
  have byte : k / 8 < 32 := by omega
  have byteBit : ∀ j < 8, (if 7 - depth % 8 = 7 then (0 : UInt8)
      else 0xFF <<< UInt8.ofNat (7 - depth % 8 + 1)).toNat.testBit j = decide (7 - depth % 8 < j) := by
    intro j low
    split
    · simp only [UInt8.toNat_zero, Nat.zero_testBit]
      exact (decide_eq_false (by omega)).symm
    · rw [testBit_shifted_mask (by omega) low]
      exact decide_eq_decide.mpr (by omega)
  have flipped : ∀ j < 8, (if bitAt path depth = 0 then (1 : UInt8) <<< UInt8.ofNat (7 - depth % 8)
      else 0).toNat.testBit j = (!pathBit path depth && decide (j = 7 - depth % 8)) := by
    intro j low
    rw [bitAt_eq]
    cases pathBit path depth
    · exact testBit_shifted_one (by omega) low
    · simp
  rw [pathBit, siblingRep, getD_ofFn _ byte]
  dsimp only
  by_cases same : k / 8 = depth / 8
  · rw [if_neg (by omega), if_pos same, UInt8.toNat_or, Nat.testBit_or, UInt8.toNat_and, Nat.testBit_and,
      byteBit _ (by omega), flipped _ (by omega)]
    by_cases before : k < depth
    · simp [before, show 7 - depth % 8 < 7 - k % 8 by omega, show 7 - k % 8 ≠ 7 - depth % 8 by omega,
        pathBit, getD_eq_get _ byte]
    · by_cases here : k = depth
      · subst here
        simp
      · simp [before, here, show ¬ 7 - depth % 8 < 7 - k % 8 by omega, show 7 - k % 8 ≠ 7 - depth % 8 by omega]
  · by_cases before : k < depth
    · rw [if_neg (by omega), if_neg same, if_pos before, pathBit, getD_eq_get _ byte]
    · rw [if_pos (by omega), if_neg before, if_neg (by rintro rfl; exact same rfl)]
      simp

@[simp] theorem prefixBits_length (depth : Nat) : (prefixBits path depth).length = depth := by
  simp [prefixBits]

theorem prefixBits_succ (depth : Nat) :
    prefixBits path (depth + 1) = prefixBits path depth ++ [pathBit path depth] := by
  simp [prefixBits, List.range_succ]

theorem prefixBits_eq_iff : prefixBits p depth = prefixBits q depth ↔ ∀ k < depth, pathBit p k = pathBit q k := by
  simp [prefixBits]

theorem prefixBits_injective (same : prefixBits p 256 = prefixBits q 256) : p = q :=
  ext_pathBit (prefixBits_eq_iff.mp same)

theorem prefixBits_isPrefix (deep : depth ≤ 256) : prefixBits path depth <+: prefixBits path 256 := by
  have range : range depth <+: range 256 := by
    rw [← Nat.add_sub_cancel' deep, List.range_add]
    exact prefix_append _ _
  exact range.map _

theorem eq_prefixBits_of_isPrefix {path bits} (inside : bits <+: prefixBits path 256) :
    bits = prefixBits path bits.length := by
  have short : bits.length ≤ 256 := by simpa using inside.length_le
  have other := prefixBits_isPrefix path short
  exact (prefix_of_prefix_length_le inside other (by simp)).eq_of_length (by simp)

/-- The bits from `depth` on are zero: the path is the key of a node. -/
def Cleared (depth : Nat) (path : Hash32) : Prop := ∀ k < 256, depth ≤ k → pathBit path k = false

theorem cleared_masked (depth : Nat) : Cleared depth (masked path depth) := by
  intro k bound above
  rw [pathBit_masked path bound, decide_eq_false (by omega), Bool.false_and]

theorem prefixBits_masked (deep : depth ≤ 256) :
    prefixBits (masked path depth) depth = prefixBits path depth := by
  refine prefixBits_eq_iff.mpr fun k below => ?_
  rw [pathBit_masked path (by omega), decide_eq_true below, Bool.true_and]

theorem Cleared.ext (left : Cleared depth p) (right : Cleared depth q)
    (same : prefixBits p depth = prefixBits q depth) : p = q := by
  refine ext_pathBit fun k bound => ?_
  by_cases below : k < depth
  · exact prefixBits_eq_iff.mp same k below
  · rw [left k bound (by omega), right k bound (by omega)]

theorem cleared_siblingRep (shallow : depth < 256) : Cleared (depth + 1) (siblingRep path depth) := by
  intro k bound above
  rw [pathBit_siblingRep path bound shallow, if_neg (by omega), if_neg (by omega)]

theorem prefixBits_siblingRep (shallow : depth < 256) :
    prefixBits (siblingRep path depth) (depth + 1) = prefixBits path depth ++ [!pathBit path depth] := by
  have high : prefixBits (siblingRep path depth) depth = prefixBits path depth := by
    refine prefixBits_eq_iff.mpr fun k below => ?_
    rw [pathBit_siblingRep path (by omega) shallow, if_pos below]
  rw [prefixBits_succ, high, pathBit_siblingRep path shallow shallow, if_neg (lt_irrefl _), if_pos rfl]

end Bleep
