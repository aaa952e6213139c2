import Bleep.Zkp.AirAcceptance

namespace Bleep
open ParallelBatchSigProver Vector

/-- For which public inputs every satisfying trace proves the documented
relations: the AIR leaves the epoch id and the high limb of the transaction
count open, so these two must hold on their own whenever a trace exists. -/
theorem air_sound_iff (inputs : ExtendedBlockPublicInputs) :
    (∀ trace, ValidTrace inputs trace → inputs.isConsistent = true) ↔
      (Acceptable inputs → inputs.txCount ≤ maxBlockTransactions ∧
        inputs.epochId = inputs.blockIndex / inputs.blocksPerEpoch) := by
  constructor
  · intro sound acceptable
    have consistent := isConsistent_iff.mp (sound _ acceptable.solvedTrace_valid)
    exact ⟨consistent.2.2.1, consistent.2.2.2.2⟩
  · intro relations trace valid
    have acceptable := valid.acceptable
    obtain ⟨cap, epoch⟩ := relations acceptable
    exact isConsistent_iff.mpr ⟨acceptable.epochLength, acceptable.counts, cap, acceptable.sequence, epoch⟩

/-- Block 5 of a chain with 100 blocks per epoch, claimed to be in epoch 7. -/
def wrongEpochInputs : ExtendedBlockPublicInputs where
  blockIndex := 5
  epochId := 7
  txCount := 1
  blocksPerEpoch := 100
  merkleRootHash := replicate 32 0
  validatorPkHash := replicate 32 0
  skSeedHash := replicate 32 0
  blockHash := replicate 32 0
  smtRoot := replicate 32 0
  sigCommitmentRoot := replicate 32 0
  sigCount := 1
  batchSeqId := 5

theorem wrong_epoch_has_valid_trace :
    ValidTrace wrongEpochInputs (solvedTrace wrongEpochInputs) ∧ wrongEpochInputs.isConsistent = false :=
  ⟨Acceptable.solvedTrace_valid ⟨by decide, by decide, by decide, by decide, by decide, by decide⟩, by decide⟩

theorem honest_columns {inputs} (consistent : inputs.isConsistent = true) :
    MetadataHolds inputs (metadataRow inputs (inputs.epochRemainder.toNat : BaseElement)
      (inputs.epochRemainderGap.toNat : BaseElement) (inputs.txCountGap.toNat : BaseElement)
      (inputs.blocksPerEpoch.toNat : BaseElement)⁻¹) := by
  obtain ⟨positive, counts, cap, sequence, epoch⟩ := isConsistent_iff.mp consistent
  have capped : inputs.txCount.toNat ≤ 4096 := BitVec.le_def.mp cap
  have below := epochRemainder_lt positive
  refine metadataRow_holds positive counts sequence ?_ ?_ ?_
  · have division : inputs.blockIndex.toNat =
        inputs.epochId.toNat * inputs.blocksPerEpoch.toNat + inputs.epochRemainder.toNat := by
      rw [epochRemainder_toNat positive, epoch, BitVec.toNat_udiv, Nat.div_add_mod']
    exact_mod_cast congrArg (Nat.cast : Nat → BaseElement) division
  · have total : inputs.epochRemainder.toNat + inputs.epochRemainderGap.toNat + 1 =
        inputs.blocksPerEpoch.toNat := by
      rw [epochRemainderGap_toNat positive]
      omega
    exact_mod_cast congrArg (Nat.cast : Nat → BaseElement) total
  · have total : inputs.txCount.toNat + inputs.txCountGap.toNat = 4096 := by
      rw [txCountGap_toNat]
      omega
    exact_mod_cast congrArg (Nat.cast : Nat → BaseElement) total

/-- The honest trace of consistent inputs satisfies the AIR exactly when the
remainder of the block index and its distance to the end of the epoch fit
the single 16-bit limb they get. -/
theorem buildTrace_valid_iff (inputs : ExtendedBlockPublicInputs) (sigHashes : List Hash32)
    (consistent : inputs.isConsistent = true) :
    ValidTrace inputs (buildTrace inputs sigHashes) ↔
      inputs.blockIndex.toNat % inputs.blocksPerEpoch.toNat < 65536 ∧
        inputs.blocksPerEpoch.toNat - 1 - inputs.blockIndex.toNat % inputs.blocksPerEpoch.toNat < 65536 := by
  constructor
  · intro valid
    exact ⟨valid.acceptable.remainder, valid.acceptable.remainderGap⟩
  · rintro ⟨remainder, gap⟩
    obtain ⟨positive, counts, cap, sequence, -⟩ := isConsistent_iff.mp consistent
    have capped : inputs.txCount.toNat ≤ 4096 := BitVec.le_def.mp cap
    have acceptable : Acceptable inputs := ⟨positive, counts, sequence, by omega, remainder, gap⟩
    have length := nextPowerOfTwo_spec (max (max inputs.txCount.toNat 1) minTraceLength)
    exact validTrace_fill (honest_columns consistent) acceptable.limbs length.2
      (Nat.le_trans (Nat.le_max_right _ _) length.1)

/-- Block 70000 of an epoch of `2^17` blocks: consistent metadata whose
remainder does not fit 16 bits. -/
def longEpochInputs : ExtendedBlockPublicInputs :=
  { wrongEpochInputs with blockIndex := 70000, epochId := 0, blocksPerEpoch := 131072, batchSeqId := 70000 }

theorem long_epoch_trace_invalid :
    longEpochInputs.isConsistent = true ∧ ¬ ValidTrace longEpochInputs (buildTrace longEpochInputs []) :=
  ⟨by decide, fun valid => absurd valid.acceptable.remainder (by decide)⟩

theorem buildTrace_valid_in_short_epoch :
    ({ wrongEpochInputs with epochId := 0 } : ExtendedBlockPublicInputs).isConsistent = true ∧
      ValidTrace { wrongEpochInputs with epochId := 0 } (buildTrace { wrongEpochInputs with epochId := 0 } []) :=
  ⟨by decide, (buildTrace_valid_iff { wrongEpochInputs with epochId := 0 } [] (by decide)).mpr ⟨by decide, by decide⟩⟩

end Bleep
