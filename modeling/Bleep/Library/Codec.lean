import Mathlib.Data.Set.Function
import Bleep.Library.Words

namespace Codec

open List

variable {α β γ : Type}

/-- Whatever follows an encoding, it can be told where it ends and of which of
the values it is. -/
def Delimited (within : Set α) (encode : α → List β) : Prop :=
  ∀ ⦃a⦄, a ∈ within → ∀ ⦃b⦄, b ∈ within → ∀ ⦃rest rest'⦄, encode a ++ rest = encode b ++ rest' → a = b ∧ rest = rest'

variable {within : Set α} {encode : α → List β}

theorem Delimited.of_length {n} (length : ∀ a, (encode a).length = n) (injective : Function.Injective encode) :
    Delimited Set.univ encode := by
  intro a _ b _ rest rest' same
  obtain ⟨here, others⟩ := append_inj same (by rw [length, length])
  exact ⟨injective here, others⟩

/-- A sequence of encodings is read off one by one. -/
theorem Delimited.flatMap_inj (delimited : Delimited within encode) (visible : ∀ a, encode a ≠ [])
    {list list' : List α} (inside : ∀ a ∈ list, a ∈ within) (inside' : ∀ a ∈ list', a ∈ within)
    (same : list.flatMap encode = list'.flatMap encode) : list = list' := by
  induction list generalizing list' with
  | nil =>
    cases list' with
    | nil => rfl
    | cons b list' =>
      exact absurd (append_eq_nil_iff.mp same.symm).1 (visible b)
  | cons a list ih =>
    cases list' with
    | nil =>
      exact absurd (append_eq_nil_iff.mp same).1 (visible a)
    | cons b list' =>
      rw [forall_mem_cons] at inside inside'
      obtain ⟨rfl, others⟩ := delimited inside.1 inside'.1 same
      rw [ih inside.2 inside'.2 others]

/-- What follows the last separator can be told from what is before it. -/
theorem last_separator_inj {separator : α} {front front' last last' : List α} (clean : separator ∉ last)
    (clean' : separator ∉ last') (same : front ++ separator :: last = front' ++ separator :: last') :
    front = front' ∧ last = last' := by
  rcases append_eq_append_iff.mp same with ⟨more, rfl, rest⟩ | ⟨more, rfl, rest⟩
  · cases more with
    | nil => exact ⟨(append_nil front).symm, (cons.inj rest).2⟩
    | cons a more =>
      rw [(cons.inj rest).2] at clean
      exact absurd (mem_append_right more mem_cons_self) clean
  · cases more with
    | nil => exact ⟨append_nil front', (cons.inj rest).2.symm⟩
    | cons a more =>
      rw [(cons.inj rest).2] at clean'
      exact absurd (mem_append_right more mem_cons_self) clean'

/-- Bytes with their number in front. -/
def lengthPrefixed (k : Nat) (bytes : List UInt8) : List UInt8 := Words.leBytes k bytes.length ++ bytes

theorem lengthPrefixed_delimited (k : Nat) : Delimited { bytes | bytes.length < 256 ^ k } (lengthPrefixed k) := by
  intro bytes short bytes' short' rest rest' same
  rw [lengthPrefixed, lengthPrefixed, append_assoc, append_assoc] at same
  obtain ⟨sizes, contents⟩ := append_inj same (by simp)
  have values := congrArg Words.fromLeBytes sizes
  rw [Words.fromLeBytes_leBytes, Words.fromLeBytes_leBytes, Nat.mod_eq_of_lt short, Nat.mod_eq_of_lt short'] at values
  exact append_inj contents values

end Codec
