import Bleep.Zkp.ExtendedAir

namespace Bleep
open ExtendedBlockValidityAir RangeCheck List

theorem weighted_fold (current : Row) (start n : Nat) :
    (List.range' start n).foldl
        (fun (sum, weight) column => (sum + current column * weight, weight + weight))
        ((0, 1) : BaseElement × BaseElement) =
      (recompose (fun k => current (start + k)) n, 2 ^ n) := by
  induction n with
  | zero => simp [recompose]
  | succ n ih =>
    rw [range'_concat, foldl_append, ih, recompose_succ]
    simp only [foldl_cons, foldl_nil, Nat.one_mul]
    rw [pow_succ, mul_two]

theorem reconstructed_eq (current : Row) : reconstructed current = recompose (fun k => current (22 + k)) 16 := by
  have folded := congrArg Prod.fst (weighted_fold current 22 16)
  exact folded

/-- What the 54 transition polynomials say when they all vanish, column by
column. Note that nothing here mentions the range value of another column. -/
structure TransitionHolds (current next : Row) : Prop where
  constant : ∀ column < 22, next column = current column
  boolean : ∀ k < 16, current (22 + k) * (current (22 + k) - 1) = 0
  rangeValue : current 38 = RangeCheck.recompose (fun k => current (22 + k)) 16
  epoch : current 0 = current 1 * current 3 + current 18
  remainder : current 18 + current 19 + 1 = current 3
  txCap : current 2 + current 20 = 4096
  counts : current 2 = current 16
  sequence : current 17 = current 0
  inverse : current 3 * current 21 = 1
  reserved : ∀ column, 39 ≤ column → column ≤ 47 → next column = current column

theorem evaluateTransition_zero_iff {current next} :
    (∀ result ∈ evaluateTransition current next, result = 0) ↔ TransitionHolds current next := by
  have cap : ((maxBlockTransactions.toNat : Nat) : BaseElement) = 4096 := rfl
  simp only [evaluateTransition, forall_mem_append, forall_mem_map, mem_range,
    forall_mem_cons, not_mem_nil, false_imp_iff, implies_true, and_true, columns,
    mem_range'_1, colEpochRemainder, colBlocksPerEpochInverse, colRangeBitsStart, colRangeBitsEnd,
    colRangeValue, colBlockIndex, colEpochId, colBlocksPerEpoch, colEpochRemainderGap, colTxCount,
    colTxCountGap, colSigCount, colBatchSeqId, colReservedStart, colReservedEnd, sub_eq_zero,
    reconstructed_eq, cap]
  constructor
  · rintro ⟨⟨⟨⟨pub, witness⟩, bits⟩, range, epoch, remainder, txCap, counts, sequence, inverse⟩, reserved⟩
    refine ⟨?_, ?_, range, ?_, remainder, txCap, counts, sequence, inverse, ?_⟩
    · intro column below
      by_cases low : column < 18
      · exact pub column low
      · exact witness column ⟨by omega, by omega⟩
    · intro k below
      exact bits (22 + k) ⟨by omega, by omega⟩
    · rw [← epoch]
      ring
    · intro column lower upper
      exact reserved column ⟨lower, by omega⟩
  · intro holds
    refine ⟨⟨⟨⟨?_, ?_⟩, ?_⟩, holds.rangeValue, ?_, holds.remainder, holds.txCap, holds.counts,
      holds.sequence, holds.inverse⟩, ?_⟩
    · intro column below
      exact holds.constant column (by omega)
    · intro column bounds
      exact holds.constant column (by omega)
    · intro column bounds
      have bit := holds.boolean (column - 22) (by omega)
      rwa [show 22 + (column - 22) = column by omega] at bit
    · rw [holds.epoch]
      ring
    · intro column bounds
      exact holds.reserved column bounds.1 (by omega)

/-- What the 59 assertions say: the public columns and the range values are
fixed by the verifier, three limbs are held below `2^13`. -/
structure AssertionsHold (inputs : ExtendedBlockPublicInputs) (row : Nat → Row) : Prop where
  publicColumn : ∀ column value, inputs.toElements[column]? = some value → row 0 column = value
  rangeLimb : ∀ i value, (new inputs).rangeValues[i]? = some value → row i 38 = value
  highClear : ∀ i, i = 8 ∨ i = 14 ∨ i = 22 → ∀ k, 13 ≤ k → k < 16 → row i (22 + k) = 0
  reservedZero : ∀ column, 39 ≤ column → column ≤ 47 → row 0 column = 0

variable {inputs : ExtendedBlockPublicInputs}

theorem getAssertions_iff {row} :
    (∀ a ∈ (new inputs).getAssertions, row a.step a.column = a.value) ↔ AssertionsHold inputs row := by
  simp only [getAssertions, forall_mem_append, forall_mem_map, forall_mem_flatMap,
    columns, mem_range'_1, Prod.forall, mem_zipIdx_iff_getElem?, colRangeBitsStart,
    colRangeBitsEnd, colRangeValue, colReservedStart, colReservedEnd, mem_cons, not_mem_nil,
    or_false]
  constructor
  · rintro ⟨⟨⟨pub, range⟩, high⟩, reserved⟩
    refine ⟨fun column value at_ => pub value column at_, fun i value at_ => range value i at_, ?_, ?_⟩
    · intro i limb k lower upper
      exact high i limb (22 + k) ⟨by omega, by omega⟩
    · intro column lower upper
      exact reserved column ⟨lower, by omega⟩
  · intro holds
    refine ⟨⟨⟨fun value column at_ => holds.publicColumn column value at_,
      fun value i at_ => holds.rangeLimb i value at_⟩, ?_⟩, ?_⟩
    · intro i limb column bounds
      have clear := holds.highClear i limb (column - 22) (by omega) (by omega)
      rwa [show 22 + (column - 22) = column by omega] at clear
    · intro column bounds
      exact holds.reservedZero column bounds.1 (by omega)

theorem validTrace_iff {trace} :
    ValidTrace inputs trace ↔
      (∃ k, trace.length = 2 ^ k) ∧ 32 ≤ trace.length ∧
        (∀ i, i + 1 < trace.length → TransitionHolds (trace.row i) (trace.row (i + 1))) ∧
        AssertionsHold inputs trace.row := by
  constructor
  · intro valid
    exact ⟨valid.power, valid.long, fun i below => evaluateTransition_zero_iff.mp (valid.transitions i below),
      getAssertions_iff.mp valid.assertions⟩
  · rintro ⟨power, long, transitions, assertions⟩
    exact ⟨power, long, fun i below => evaluateTransition_zero_iff.mpr (transitions i below),
      getAssertions_iff.mpr assertions⟩

end Bleep
