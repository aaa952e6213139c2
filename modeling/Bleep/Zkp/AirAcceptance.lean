import Bleep.Zkp.AirTraces

namespace Bleep
open ParallelBatchSigProver ExtendedBlockPublicInputs List BitVec

variable {inputs : ExtendedBlockPublicInputs}

theorem toNat_and_low_limb {w} (wide : 16 < w) (value : BitVec w) :
    (value &&& 0xffff).toNat = value.toNat % 65536 := by
  have mask : (0xffff : BitVec w).toNat = 2 ^ 16 - 1 :=
    Nat.mod_eq_of_lt (Nat.lt_trans (by decide) (Nat.pow_lt_pow_right (by decide) wide))
  rw [toNat_and, mask, Nat.and_two_pow_sub_one_eq_mod]

theorem pushU64Limbs_val_lt (value : U64) : ∀ limb ∈ pushU64Limbs value, limb.val < 2 ^ 16 := by
  intro limb member
  obtain ⟨shift, -, rfl⟩ := mem_map.mp member
  rw [toNat_and_low_limb (by decide), val_natCast_baseElement (by omega)]
  omega

theorem pushU32Limbs_val_lt (value : U32) : ∀ limb ∈ pushU32Limbs value, limb.val < 2 ^ 16 := by
  intro limb member
  obtain ⟨shift, -, rfl⟩ := mem_map.mp member
  rw [toNat_and_low_limb (by decide), val_natCast_baseElement (by omega)]
  omega

theorem txCountGap_toNat (inputs : ExtendedBlockPublicInputs) :
    inputs.txCountGap.toNat = 4096 - inputs.txCount.toNat := by
  rw [txCountGap, Words.toNat_saturatingSub, toNat_setWidth,
    toNat_setWidth, Nat.mod_eq_of_lt (by omega : inputs.txCount.toNat < 2 ^ 64)]
  rfl

section
variable (positive : inputs.blocksPerEpoch ≠ 0)
include positive

theorem epochRemainder_toNat : inputs.epochRemainder.toNat = inputs.blockIndex.toNat % inputs.blocksPerEpoch.toNat := by
  rw [epochRemainder, if_neg positive, toNat_umod]

theorem epochRemainder_lt : inputs.epochRemainder.toNat < inputs.blocksPerEpoch.toNat := by
  rw [epochRemainder_toNat positive]
  exact Nat.mod_lt _ (Nat.pos_of_ne_zero fun zero => positive (eq_of_toNat_eq zero))

theorem epochRemainderGap_toNat :
    inputs.epochRemainderGap.toNat = inputs.blocksPerEpoch.toNat - 1 - inputs.epochRemainder.toNat := by
  have below := epochRemainder_lt positive
  have bound := inputs.blocksPerEpoch.isLt
  rw [epochRemainderGap, Words.toNat_saturatingSub, Words.toNat_saturatingAdd]
  have one : (1 : U64).toNat = 1 := rfl
  omega

end

/-- The two epoch values get one 16-bit limb each, where the other 64-bit
inputs get four. -/
theorem limbsFit_iff : LimbsFit inputs ↔
    inputs.txCount.toNat % 65536 < 8192 ∧ inputs.sigCount.toNat % 65536 < 8192 ∧
      inputs.epochRemainder.toNat < 65536 ∧ inputs.epochRemainderGap.toNat < 65536 := by
  have low (value : U32) : (((value >>> 0) &&& 0xffff).toNat : BaseElement).val = value.toNat % 65536 := by
    rw [toNat_and_low_limb (by decide), val_natCast_baseElement (by omega)]
    rfl
  have word (value : U64) : ((value.toNat : Nat) : BaseElement).val = value.toNat :=
    val_natCast_baseElement (Nat.lt_trans value.isLt (by decide))
  constructor
  · intro limbs
    have tx := limbs.capped 8 (.inl rfl) _ rfl
    have sig := limbs.capped 14 (.inr (.inl rfl)) _ rfl
    have remainder := limbs.fits 20 _ rfl
    have gap := limbs.fits 21 _ rfl
    rw [low] at tx sig
    rw [word] at remainder gap
    exact ⟨tx, sig, remainder, gap⟩
  · rintro ⟨tx, sig, remainder, gap⟩
    refine ⟨?_, ?_⟩
    · intro i value atRow
      have member := mem_of_getElem? atRow
      simp only [ExtendedBlockValidityAir.new, rangeValues, mem_append, mem_cons, not_mem_nil, or_false] at member
      rcases member with (((((member | member) | member) | member) | member) | member) | rfl | rfl | rfl
      · exact pushU64Limbs_val_lt _ value member
      · exact pushU64Limbs_val_lt _ value member
      · exact pushU32Limbs_val_lt _ value member
      · exact pushU64Limbs_val_lt _ value member
      · exact pushU32Limbs_val_lt _ value member
      · exact pushU64Limbs_val_lt _ value member
      · rwa [word]
      · rwa [word]
      · rw [word, txCountGap_toNat]
        omega
    · rintro i (rfl | rfl | rfl) value atRow
      · cases atRow
        rwa [low]
      · cases atRow
        rwa [low]
      · cases atRow
        rw [word, txCountGap_toNat]
        omega

theorem isConsistent_iff : inputs.isConsistent = true ↔
    inputs.blocksPerEpoch ≠ 0 ∧ inputs.txCount = inputs.sigCount ∧
      inputs.txCount ≤ maxBlockTransactions ∧ inputs.batchSeqId = inputs.blockIndex ∧
      inputs.epochId = inputs.blockIndex / inputs.blocksPerEpoch := by
  simp only [isConsistent, Bool.and_eq_true, bne_iff_ne, beq_iff_eq,
    decide_eq_true_eq]
  constructor
  · rintro ⟨⟨⟨⟨⟨positive, counts⟩, cap⟩, -⟩, sequence⟩, epoch⟩
    exact ⟨positive, counts, cap, sequence, epoch⟩
  · rintro ⟨positive, counts, cap, sequence, epoch⟩
    exact ⟨⟨⟨⟨⟨positive, counts⟩, cap⟩, counts ▸ cap⟩, sequence⟩, epoch⟩

/-- The public inputs for which some trace satisfies the AIR. The epoch id
does not occur: its remainder column may hold any field element. -/
structure Acceptable (inputs : ExtendedBlockPublicInputs) : Prop where
  epochLength : inputs.blocksPerEpoch ≠ 0
  counts : inputs.txCount = inputs.sigCount
  sequence : inputs.batchSeqId = inputs.blockIndex
  txLimb : inputs.txCount.toNat % 65536 < 8192
  remainder : inputs.blockIndex.toNat % inputs.blocksPerEpoch.toNat < 65536
  remainderGap : inputs.blocksPerEpoch.toNat - 1 - inputs.blockIndex.toNat % inputs.blocksPerEpoch.toNat < 65536

theorem natCast_word_ne_zero (positive : inputs.blocksPerEpoch ≠ 0) :
    (inputs.blocksPerEpoch.toNat : BaseElement) ≠ 0 := by
  intro zero
  have same := (natCast_baseElement (b := 0) (Nat.lt_trans inputs.blocksPerEpoch.isLt (by decide))
    (by decide)).mp (by simpa using zero)
  exact positive (eq_of_toNat_eq same)

theorem MetadataHolds.counts_sequence {row} (metadata : MetadataHolds inputs row) :
    inputs.blocksPerEpoch ≠ 0 ∧ inputs.txCount = inputs.sigCount ∧
      inputs.batchSeqId = inputs.blockIndex := by
  have pub := metadata.publicColumn
  refine ⟨?_, ?_, ?_⟩
  · intro zero
    have inverse := metadata.inverse
    rw [pub 3 _ rfl, zero] at inverse
    simp at inverse
  · have counts := metadata.counts
    rw [pub 2 _ rfl, pub 16 _ rfl, natCast_baseElement (by omega) (by omega)] at counts
    exact eq_of_toNat_eq counts
  · have sequence := metadata.sequence
    rw [pub 17 _ rfl, pub 0 _ rfl, natCast_baseElement (by omega) (by omega)] at sequence
    exact eq_of_toNat_eq sequence

theorem metadataRow_holds {remainder remainderGap txCountGap}
    (positive : inputs.blocksPerEpoch ≠ 0) (counts : inputs.txCount = inputs.sigCount)
    (sequence : inputs.batchSeqId = inputs.blockIndex)
    (epoch : (inputs.blockIndex.toNat : BaseElement) = inputs.epochId.toNat * inputs.blocksPerEpoch.toNat + remainder)
    (gap : remainder + remainderGap + 1 = (inputs.blocksPerEpoch.toNat : BaseElement))
    (cap : (inputs.txCount.toNat : BaseElement) + txCountGap = 4096) :
    MetadataHolds inputs (metadataRow inputs remainder remainderGap txCountGap
      (inputs.blocksPerEpoch.toNat : BaseElement)⁻¹) := by
  refine ⟨?_, epoch, gap, cap, ?_, ?_, mul_inv_cancel₀ (natCast_word_ne_zero positive), ?_⟩
  · intro column value atColumn
    have below : column < 18 := (List.getElem?_eq_some_iff.mp atColumn).1
    change (if column = 18 then _ else if column = 19 then _ else if column = 20 then _ else
      if column = 21 then _ else inputs.toElements.getD column 0) = value
    rw [if_neg (by omega), if_neg (by omega), if_neg (by omega), if_neg (by omega),
      List.getD_eq_getElem?_getD, atColumn, Option.getD_some]
  · change (inputs.txCount.toNat : BaseElement) = inputs.sigCount.toNat
    rw [counts]
  · change (inputs.batchSeqId.toNat : BaseElement) = inputs.blockIndex.toNat
    rw [sequence]
  · intro column lower _
    change (if column = 18 then _ else if column = 19 then _ else if column = 20 then _ else
      if column = 21 then _ else inputs.toElements.getD column 0) = 0
    have beyond : inputs.toElements.length ≤ column := Nat.le_trans (by decide : 18 ≤ 39) lower
    rw [if_neg (by omega), if_neg (by omega), if_neg (by omega), if_neg (by omega),
      List.getD_eq_getElem?_getD, List.getElem?_eq_none beyond, Option.getD_none]

theorem Acceptable.limbs (acceptable : Acceptable inputs) : LimbsFit inputs := by
  rw [limbsFit_iff, epochRemainderGap_toNat acceptable.epochLength,
    epochRemainder_toNat acceptable.epochLength, ← acceptable.counts]
  exact ⟨acceptable.txLimb, acceptable.txLimb, acceptable.remainder, acceptable.remainderGap⟩

/-- The forged trace: the witness columns are the field solutions of the
three linear constraints, whether or not they are small numbers. -/
def solvedTrace (inputs : ExtendedBlockPublicInputs) : TraceTable where
  length := minTraceLength
  row :=
    let remainder : BaseElement := inputs.blockIndex.toNat - inputs.epochId.toNat * inputs.blocksPerEpoch.toNat
    fill
      (metadataRow inputs remainder ((inputs.blocksPerEpoch.toNat : BaseElement) - 1 - remainder)
        (4096 - (inputs.txCount.toNat : BaseElement)) (inputs.blocksPerEpoch.toNat : BaseElement)⁻¹)
      (ExtendedBlockValidityAir.new inputs).rangeValues

theorem Acceptable.solvedTrace_valid (acceptable : Acceptable inputs) : ValidTrace inputs (solvedTrace inputs) := by
  refine validTrace_fill ?_ acceptable.limbs ⟨5, rfl⟩ (by decide)
  refine metadataRow_holds acceptable.epochLength acceptable.counts acceptable.sequence ?_ ?_ ?_
  · ring
  · ring
  · ring

theorem ValidTrace.acceptable {trace} (valid : ValidTrace inputs trace) : Acceptable inputs := by
  obtain ⟨positive, counts, sequence⟩ := valid.metadata.counts_sequence
  obtain ⟨tx, -, remainder, gap⟩ := limbsFit_iff.mp valid.limbs
  rw [epochRemainderGap_toNat positive] at gap
  rw [epochRemainder_toNat positive] at remainder gap
  exact ⟨positive, counts, sequence, tx, remainder, gap⟩

end Bleep
