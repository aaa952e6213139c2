import Bleep.Zkp.AirConstraints

namespace Bleep
namespace ParallelBatchSigProver

def nextPowerLoop (value power : Nat) : Nat :=
  if 0 < power ∧ power < value then nextPowerLoop value (2 * power) else power
termination_by value - power

def nextPowerOfTwo (value : Nat) : Nat := nextPowerLoop value 1

/-- The value of the range column in a row: a limb, then one full padding
limb right after the last one, then zeros. -/
def rangeValueAt (row : Nat) (values : List BaseElement) : BaseElement :=
  values[row]?.getD (if row = numRangeLimbs then 65535 else 0)

/-- `as_int` of the source is the canonical representative, `ZMod.val`. -/
def setRangeRow (state : Row) (row : Nat) (values : List BaseElement) : Row := fun column =>
  let value := rangeValueAt row values
  if colRangeBitsStart ≤ column ∧ column ≤ colRangeBitsEnd then
    ((value.val / 2 ^ (column - colRangeBitsStart) % 2 : Nat) : BaseElement)
  else if column = colRangeValue then value
  else state column

/-- `TraceTable::fill`: the first row from `init`, each later row from the
one before it. -/
def fill (init : Row) (values : List BaseElement) : Nat → Row
  | 0 => setRangeRow init 0 values
  | step + 1 => setRangeRow (fill init values step) (step + 1) values

/-- The row before its range columns are set, for given remainder, gap and
inverse columns. -/
def metadataRow (inputs : ExtendedBlockPublicInputs)
    (remainder remainderGap txCountGap inverse : BaseElement) : Row := fun column =>
  if column = colEpochRemainder then remainder
  else if column = colEpochRemainderGap then remainderGap
  else if column = colTxCountGap then txCountGap
  else if column = colBlocksPerEpochInverse then inverse
  else inputs.toElements.getD column 0

def buildTrace (inputs : ExtendedBlockPublicInputs) (_sigHashes : List Hash32) : TraceTable where
  length := nextPowerOfTwo (max (max inputs.txCount.toNat 1) minTraceLength)
  row := fill
    (metadataRow inputs (inputs.epochRemainder.toNat : BaseElement)
      (inputs.epochRemainderGap.toNat : BaseElement) (inputs.txCountGap.toNat : BaseElement)
      (inputs.blocksPerEpoch.toNat : BaseElement)⁻¹)
    (rangeValues inputs inputs.epochRemainder inputs.epochRemainderGap inputs.txCountGap)

theorem nextPowerLoop_spec (value k : Nat) :
    value ≤ nextPowerLoop value (2 ^ k) ∧ ∃ m, nextPowerLoop value (2 ^ k) = 2 ^ m := by
  -- the distance to the bound shrinks while the exponent grows
  induction gap : value - 2 ^ k using Nat.strong_induction_on generalizing k with
  | _ gap ih =>
    have positive : 0 < 2 ^ k := Nat.two_pow_pos k
    rw [nextPowerLoop]
    split
    · have double : 2 * 2 ^ k = 2 ^ (k + 1) := by rw [pow_succ]; ring
      rw [double]
      exact ih (value - 2 ^ (k + 1)) (by omega) (k + 1) rfl
    · exact ⟨by omega, k, rfl⟩

theorem nextPowerOfTwo_spec (value : Nat) :
    value ≤ nextPowerOfTwo value ∧ ∃ m, nextPowerOfTwo value = 2 ^ m :=
  nextPowerLoop_spec value 0

variable (init : Row) (values : List BaseElement) (row : Nat)

theorem fill_eq : fill init values row = setRangeRow init row values := by
  induction row with
  | zero => rfl
  | succ row ih =>
    funext column
    simp only [fill, ih, setRangeRow]
    split_ifs <;> rfl

theorem fill_other {column}
    (other : column < 22 ∨ 39 ≤ column) : fill init values row column = init column := by
  rw [fill_eq]
  change (if 22 ≤ column ∧ column ≤ 37 then _ else if column = 38 then _ else init column) = init column
  rw [if_neg (by omega), if_neg (by omega)]

theorem fill_rangeValue : fill init values row 38 = rangeValueAt row values := by
  rw [fill_eq]
  rfl

theorem fill_bit {k} (below : k < 16) :
    fill init values row (22 + k) = (((rangeValueAt row values).val / 2 ^ k % 2 : Nat) : BaseElement) := by
  have bits : 22 ≤ 22 + k ∧ 22 + k ≤ 37 := by omega
  rw [fill_eq]
  change (if 22 ≤ 22 + k ∧ 22 + k ≤ 37 then (((rangeValueAt row values).val / 2 ^ (22 + k - 22) % 2 : Nat) : BaseElement)
    else _) = _
  rw [if_pos bits, Nat.add_sub_cancel_left]

end ParallelBatchSigProver
end Bleep
