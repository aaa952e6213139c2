import Bleep.Zkp.BatchSigProver

namespace Bleep
open ParallelBatchSigProver ExtendedBlockValidityAir RangeCheck

theorem natCast_baseElement {a b : Nat} (left : a < 2 ^ 127) (right : b < 2 ^ 127) : (a : BaseElement) = b ↔ a = b := by
  have modulus : 2 ^ 127 ≤ f128Modulus := by decide
  rw [ZMod.natCast_eq_natCast_iff', Nat.mod_eq_of_lt (by omega), Nat.mod_eq_of_lt (by omega)]

theorem val_natCast_baseElement {a : Nat} (bound : a < 2 ^ 127) : (a : BaseElement).val = a := by
  have modulus : 2 ^ 127 ≤ f128Modulus := by decide
  exact ZMod.val_natCast_of_lt (by omega)

/-- The relations between the columns which do not change from row to row. -/
structure MetadataHolds (inputs : ExtendedBlockPublicInputs) (row : Row) : Prop where
  publicColumn : ∀ column value, inputs.toElements[column]? = some value → row column = value
  epoch : row 0 = row 1 * row 3 + row 18
  remainder : row 18 + row 19 + 1 = row 3
  txCap : row 2 + row 20 = 4096
  counts : row 2 = row 16
  sequence : row 17 = row 0
  inverse : row 3 * row 21 = 1
  reservedZero : ∀ column, 39 ≤ column → column ≤ 47 → row column = 0

/-- What the bit columns say about the values the verifier puts in the range
column. It speaks of the public inputs alone. -/
structure LimbsFit (inputs : ExtendedBlockPublicInputs) : Prop where
  fits : ∀ i : Nat, ∀ value : BaseElement,
    (ExtendedBlockValidityAir.new inputs).rangeValues[i]? = some value → value.val < 2 ^ 16
  capped : ∀ i : Nat, i = 8 ∨ i = 14 ∨ i = 22 → ∀ value : BaseElement,
    (ExtendedBlockValidityAir.new inputs).rangeValues[i]? = some value → value.val < 2 ^ 13

variable {inputs : ExtendedBlockPublicInputs} {trace : TraceTable}

theorem rangeValues_length (inputs : ExtendedBlockPublicInputs) : (new inputs).rangeValues.length = numRangeLimbs := rfl

theorem ValidTrace.metadata (valid : ValidTrace inputs trace) : MetadataHolds inputs (trace.row 0) := by
  obtain ⟨-, long, transitions, assertions⟩ := validTrace_iff.mp valid
  have first := transitions 0 (by omega)
  exact ⟨assertions.publicColumn, first.epoch, first.remainder, first.txCap, first.counts, first.sequence,
    first.inverse, assertions.reservedZero⟩

theorem ValidTrace.limbs (valid : ValidTrace inputs trace) : LimbsFit inputs := by
  obtain ⟨-, long, transitions, assertions⟩ := validTrace_iff.mp valid
  -- all 23 limbs lie in rows which have a successor
  have row {i : Nat} {value : BaseElement}
      (atRow : (new inputs).rangeValues[i]? = some value) :
      TransitionHolds (trace.row i) (trace.row (i + 1)) := by
    have below := (List.getElem?_eq_some_iff.mp atRow).1
    rw [rangeValues_length, numRangeLimbs] at below
    exact transitions i (by omega)
  refine ⟨?_, ?_⟩
  · intro i value atRow
    have holds := row atRow
    obtain ⟨n, bound, sum⟩ := recompose_bounded holds.boolean
    rw [← assertions.rangeLimb i value atRow, holds.rangeValue, sum, val_natCast_baseElement (by omega)]
    exact bound
  · intro i limb value atRow
    have holds := row atRow
    have clear := recompose_of_high_clear 13 3 (fun k above below => assertions.highClear i limb k above below)
    obtain ⟨n, bound, sum⟩ := recompose_bounded (m := 13) (fun k below => holds.boolean k (by omega))
    rw [← assertions.rangeLimb i value atRow, holds.rangeValue, clear, sum, val_natCast_baseElement (by omega)]
    exact bound

theorem rangeValueAt_val_lt (limbs : LimbsFit inputs) (row : Nat) :
    (rangeValueAt row (new inputs).rangeValues).val < 2 ^ 16 := by
  rw [rangeValueAt]
  cases atRow : (new inputs).rangeValues[row]? with
  | some value => exact limbs.fits row value atRow
  | none =>
    split
    · decide
    · decide

variable {init : Row} (metadata : MetadataHolds inputs init) (limbs : LimbsFit inputs)
include metadata limbs

theorem fill_transition (i : Nat) :
    TransitionHolds (fill init (new inputs).rangeValues i)
      (fill init (new inputs).rangeValues (i + 1)) := by
  set values := (new inputs).rangeValues
  have low (column : Nat) (below : column < 22) := fill_other init values i (.inl below)
  refine ⟨?_, ?_, ?_, ?_, ?_, ?_, ?_, ?_, ?_, ?_⟩
  · intro column below
    rw [fill_other _ _ _ (.inl below), fill_other _ _ _ (.inl below)]
  · intro k below
    rw [fill_bit _ _ _ below]
    exact digit_boolean _ k
  · rw [recompose_congr fun k below => fill_bit init values i below, recompose_digits,
      Nat.mod_eq_of_lt (rangeValueAt_val_lt limbs i), ZMod.natCast_zmod_val, fill_rangeValue]
  · rw [low 0 (by decide), low 1 (by decide), low 3 (by decide), low 18 (by decide)]
    exact metadata.epoch
  · rw [low 18 (by decide), low 19 (by decide), low 3 (by decide)]
    exact metadata.remainder
  · rw [low 2 (by decide), low 20 (by decide)]
    exact metadata.txCap
  · rw [low 2 (by decide), low 16 (by decide)]
    exact metadata.counts
  · rw [low 17 (by decide), low 0 (by decide)]
    exact metadata.sequence
  · rw [low 3 (by decide), low 21 (by decide)]
    exact metadata.inverse
  · intro column lower _
    rw [fill_other _ _ _ (.inr lower), fill_other _ _ _ (.inr lower)]

theorem fill_assertions : AssertionsHold inputs (fill init (new inputs).rangeValues) := by
  refine ⟨?_, ?_, ?_, ?_⟩
  · intro column value atColumn
    have below : column < 18 := (List.getElem?_eq_some_iff.mp atColumn).1
    rw [fill_other _ _ _ (.inl (by omega))]
    exact metadata.publicColumn column value atColumn
  · intro row value atRow
    rw [fill_rangeValue, rangeValueAt, atRow, Option.getD_some]
  · intro row limb k lower upper
    have below : row < (new inputs).rangeValues.length := by
      rw [rangeValues_length, numRangeLimbs]
      omega
    have bound := limbs.capped row limb _ (List.getElem?_eq_getElem below)
    have power : 2 ^ 13 ≤ 2 ^ k := Nat.pow_le_pow_right (by decide) lower
    rw [fill_bit _ _ _ upper, rangeValueAt, List.getElem?_eq_getElem below, Option.getD_some,
      Nat.div_eq_of_lt (by omega)]
    rfl
  · intro column lower upper
    rw [fill_other _ _ _ (.inr lower)]
    exact metadata.reservedZero column lower upper

/-- Any row with the metadata relations extends to a whole trace, once the
limbs fit. -/
theorem validTrace_fill {length} (power : ∃ k, length = 2 ^ k) (long : 32 ≤ length) :
    ValidTrace inputs ⟨length, fill init (new inputs).rangeValues⟩ :=
  validTrace_iff.mpr ⟨power, long, fun i _ => fill_transition metadata limbs i, fill_assertions metadata limbs⟩

end Bleep
