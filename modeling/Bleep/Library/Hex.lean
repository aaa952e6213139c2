import Mathlib.Data.List.Basic
import Mathlib.Tactic.IntervalCases

namespace Hex

open List

def digit (n : Nat) : Char :=
  if n < 10 then Char.ofNat (48 + n) else Char.ofNat (87 + n)

def chars (bytes : List UInt8) : List Char :=
  bytes.flatMap fun byte => [digit (byte.toNat / 16), digit (byte.toNat % 16)]

/-- Lower-case hexadecimal text, two digits for each byte. -/
def encode (bytes : List UInt8) : String := String.ofList (chars bytes)

inductive FromHexError
  | invalidHexCharacter (c : Char) (index : Nat)
  | oddLength
  | invalidStringLength
  deriving DecidableEq

def val (c : Char) (index : Nat) : Except FromHexError Nat :=
  if 'A' ≤ c ∧ c ≤ 'F' then .ok (c.toNat - 55)
  else if 'a' ≤ c ∧ c ≤ 'f' then .ok (c.toNat - 87)
  else if '0' ≤ c ∧ c ≤ '9' then .ok (c.toNat - 48)
  else .error (.invalidHexCharacter c index)

def pairs (index : Nat) : List Char → Except FromHexError (List UInt8)
  | high :: low :: rest => do
    let h ← val high index
    let l ← val low (index + 1)
    let tail ← pairs (index + 2) rest
    return UInt8.ofNat (h * 16 + l) :: tail
  | _ => .ok []

def decode (text : String) : Except FromHexError (List UInt8) :=
  let data := text.toList
  if data.length % 2 ≠ 0 then .error .oddLength else pairs 0 data

variable {n : Nat} {bytes : List UInt8}

theorem val_digit (small : n < 16) (index : Nat) : val (digit n) index = .ok n := by
  interval_cases n <;> rfl

theorem toNat_digit (small : n < 16) : (digit n).toNat = if n < 10 then 48 + n else 87 + n := by
  interval_cases n <;> rfl

theorem val_of_toLower {c} (small : n < 16) (lower : c.toLower = digit n) (index : Nat) :
    val c index = .ok n := by
  unfold Char.toLower at lower
  split at lower
  · rename_i capital
    have low : 65 ≤ c.toNat := capital.1
    have high : c.toNat ≤ 90 := capital.2
    have code : (c.toNat + 32) % 4294967296 = (digit n).toNat := by
      rw [← lower]
      rfl
    rw [toNat_digit small] at code
    have value : c.toNat = 55 + n := by
      split at code <;> omega
    have inside : 'A' ≤ c ∧ c ≤ 'F' := by
      constructor
      · exact (show 65 ≤ c.toNat by omega)
      · exact (show c.toNat ≤ 70 by omega)
    rw [val, if_pos inside, value, Nat.add_sub_cancel_left]
  · rw [lower]
    exact val_digit small index

theorem toLower_digit (small : n < 16) : (digit n).toLower = digit n := by
  interval_cases n <;> rfl

/-- Every character of an encoding is a decimal digit or one of `a` to `f`. -/
theorem chars_lower {c} (member : c ∈ chars bytes) : ∃ n < 16, c = digit n := by
  obtain ⟨byte, -, atByte⟩ := mem_flatMap.mp member
  have bound := byte.toNat_lt
  rcases mem_cons.mp atByte with high | low
  · exact ⟨_, by omega, high⟩
  · exact ⟨_, by omega, mem_singleton.mp low⟩

theorem map_toLower_chars (bytes : List UInt8) : (chars bytes).map Char.toLower = chars bytes := by
  refine (map_congr_left fun c member => ?_).trans (map_id _)
  obtain ⟨n, small, rfl⟩ := chars_lower member
  exact toLower_digit small

theorem pairs_of_toLower {text} (lower : text.map Char.toLower = chars bytes) (index : Nat)
    : pairs index text = .ok bytes := by
  induction bytes generalizing text index with
  | nil =>
    rw [map_eq_nil_iff.mp lower]
    rfl
  | cons byte bytes ih =>
    have bound := byte.toNat_lt
    have whole : byte.toNat / 16 * 16 + byte.toNat % 16 = byte.toNat := by omega
    obtain ⟨high, rest, rfl, highLower, lower⟩ := map_eq_cons_iff.mp lower
    obtain ⟨low, rest, rfl, lowLower, lower⟩ := map_eq_cons_iff.mp lower
    rw [pairs, val_of_toLower (by omega) highLower, val_of_toLower (by omega) lowLower, ih lower]
    change Except.ok (UInt8.ofNat (byte.toNat / 16 * 16 + byte.toNat % 16) :: bytes) = _
    rw [whole, UInt8.ofNat_toNat]

theorem pairs_chars (bytes : List UInt8) (index : Nat) : pairs index (chars bytes) = .ok bytes :=
  pairs_of_toLower (map_toLower_chars bytes) index

theorem chars_injective : Function.Injective chars := by
  intro left right same
  have decoded := pairs_chars left 0
  rw [same, pairs_chars] at decoded
  exact (Except.ok.inj decoded).symm

theorem encode_injective : Function.Injective encode := by
  intro left right same
  exact chars_injective (String.ofList_injective same)

@[simp] theorem chars_length (bytes : List UInt8) : (chars bytes).length = 2 * bytes.length := by
  induction bytes with
  | nil => rfl
  | cons byte bytes ih =>
    change (chars bytes).length + 1 + 1 = 2 * (bytes.length + 1)
    omega

/-- A text that differs from an encoding only in case is decoded to the same
bytes. -/
theorem decode_of_toLower {text}
    (lower : text.toList.map Char.toLower = (encode bytes).toList.map Char.toLower) : decode text = .ok bytes := by
  rw [encode, String.toList_ofList, map_toLower_chars] at lower
  have length := congrArg length lower
  rw [length_map, chars_length] at length
  simp only [decode]
  rw [if_neg (by omega), pairs_of_toLower lower]

theorem decode_encode (bytes : List UInt8) : decode (encode bytes) = .ok bytes := decode_of_toLower rfl

end Hex
