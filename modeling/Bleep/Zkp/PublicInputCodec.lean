import Bleep.Core.BlockValidation
import Bleep.Zkp.AirCorrectness

namespace Bleep

open List Words ParallelBatchSigProver Block

def fieldPairToBytes (hi lo : BaseElement) : Hash32 := ⟨(leBytes 16 hi.val ++ leBytes 16 lo.val).toArray, by simp⟩

/-- The columns 4 to 15 hold the hashes by halves, the root of the state before
the hash of the block. -/
def ParallelBatchSigProver.getPubInputs (trace : TraceTable) : ExtendedBlockPublicInputs :=
  let col0 := trace.row 0
  { blockIndex := BitVec.ofNat 64 (col0 colBlockIndex).val
    epochId := BitVec.ofNat 64 (col0 colEpochId).val
    txCount := BitVec.ofNat 32 (col0 colTxCount).val
    blocksPerEpoch := BitVec.ofNat 64 (col0 colBlocksPerEpoch).val
    merkleRootHash := fieldPairToBytes (col0 4) (col0 5)
    validatorPkHash := fieldPairToBytes (col0 6) (col0 7)
    skSeedHash := fieldPairToBytes (col0 8) (col0 9)
    blockHash := fieldPairToBytes (col0 12) (col0 13)
    smtRoot := fieldPairToBytes (col0 10) (col0 11)
    sigCommitmentRoot := fieldPairToBytes (col0 14) (col0 15)
    sigCount := BitVec.ofNat 32 (col0 colSigCount).val
    batchSeqId := BitVec.ofNat 64 (col0 colBatchSeqId).val }

/-- Both halves of the hash are canonical representatives. -/
def InField (hash : Hash32) : Prop :=
  fromLeBytes (hash.toList.take 16) < f128Modulus ∧ fromLeBytes (hash.toList.drop 16) < f128Modulus

section Bytes
variable {bytes : Bytes}

theorem leBytes_read (k w : Nat) (long : k ≤ bytes.length) (wide : 256 ^ k = 2 ^ w) :
    leBytes k (BitVec.ofNat w (fromLeBytes (bytes.take k))).toNat = bytes.take k := by
  have small := fromLeBytes_lt (bytes.take k)
  have back := leBytes_fromLeBytes (bytes.take k)
  rw [length_take_of_le long] at small back
  rwa [BitVec.toNat_ofNat, Nat.mod_eq_of_lt (wide ▸ small)]

theorem toList_readHash (long : 32 ≤ bytes.length) : (readHash bytes).toList = bytes.take 32 := by
  refine ext_getElem (by simp [long]) fun i left right => ?_
  rw [length_take] at right
  simp [readHash, getElem?_eq_getElem (show i < bytes.length by omega)]

theorem encodeExtPubInputs_decode (size : bytes.length = extPubInputsLen) :
    (decodeExtPubInputs bytes).map encodeExtPubInputs = some bytes := by
  have long (i k : Nat) (fits : i + k ≤ 232) : k ≤ (bytes.drop i).length := by
    rw [length_drop, size]
    exact Nat.le_sub_of_add_le' fits
  have word (i : Nat) (fits : i + 8 ≤ 232) := leBytes_read 8 64 (long i 8 fits) rfl
  have half (i : Nat) (fits : i + 4 ≤ 232) := leBytes_read 4 32 (long i 4 fits) rfl
  have hash (i : Nat) (fits : i + 32 ≤ 232) := toList_readHash (long i 32 fits)
  have part (i k j : Nat) (next : j = i + k) : (bytes.drop i).take k ++ bytes.drop j = bytes.drop i := by
    rw [next, ← drop_drop, take_append_drop]
  have last : (bytes.drop 200).take 32 = bytes.drop 200 := take_of_length_le (by simp [size, extPubInputsLen])
  have first := word 0 (by decide)
  rw [drop_zero] at first
  rw [decodeExtPubInputs, if_neg (by simp [size]), Option.map_some, encodeExtPubInputs]
  simp only [le64, le32, readU64, readU32, first, word 8 (by decide), half 16 (by decide), word 20 (by decide),
    half 28 (by decide), word 32 (by decide), hash 40 (by decide), hash 72 (by decide), hash 104 (by decide),
    hash 136 (by decide), hash 168 (by decide), hash 200 (by decide), last, append_assoc]
  rw [part 168 32 200 rfl, part 136 32 168 rfl, part 104 32 136 rfl, part 72 32 104 rfl, part 40 32 72 rfl,
    part 32 8 40 rfl, part 28 4 32 rfl, part 20 8 28 rfl, part 16 4 20 rfl, part 8 8 16 rfl, take_append_drop]

theorem leBytes_val_iff {half} (size : half.length = 16) :
    leBytes 16 ((fromLeBytes half : Nat) : BaseElement).val = half ↔ fromLeBytes half < f128Modulus := by
  have back := leBytes_fromLeBytes half
  have small := fromLeBytes_lt half
  have room : f128Modulus < 256 ^ 16 := by decide
  rw [size] at back small
  rw [ZMod.val_natCast]
  constructor
  · intro same
    have values := congrArg fromLeBytes (same.trans back.symm)
    rw [fromLeBytes_leBytes, fromLeBytes_leBytes, Nat.mod_eq_of_lt small] at values
    have reduced := Nat.mod_lt (fromLeBytes half) (show 0 < f128Modulus by decide)
    rw [Nat.mod_eq_of_lt (reduced.trans room)] at values
    exact values ▸ reduced
  · intro canonical
    rw [Nat.mod_eq_of_lt canonical, back]

theorem fieldPairToBytes_eq_iff (hash : Hash32) : fieldPairToBytes (bytesHi hash) (bytesLo hash) = hash ↔ InField hash := by
  have high : (hash.toList.take 16).length = 16 := by simp
  have low : (hash.toList.drop 16).length = 16 := by simp
  rw [InField, ← leBytes_val_iff high, ← leBytes_val_iff low, ← Vector.toList_inj]
  constructor
  · intro same
    exact append_inj (same.trans (take_append_drop 16 hash.toList).symm) (by rw [leBytes_length, high])
  · rintro ⟨first, second⟩
    exact (congrArg₂ HAppend.hAppend first second).trans (take_append_drop 16 hash.toList)

end Bytes

/-- The bytes of the public inputs are read back and written back. From the trace
they are read back exactly when all halves of the hashes are below the modulus
of the field. -/
theorem public_inputs_round_trip (inputs : ExtendedBlockPublicInputs) (sigHashes : List Hash32) :
    decodeExtPubInputs (encodeExtPubInputs inputs) = some inputs ∧
    (∀ bytes : Bytes, bytes.length = 232 →
      (decodeExtPubInputs bytes).map encodeExtPubInputs = some bytes) ∧
    (getPubInputs (buildTrace inputs sigHashes) = inputs ↔
      ∀ hash ∈ [inputs.merkleRootHash, inputs.validatorPkHash, inputs.skSeedHash, inputs.blockHash, inputs.smtRoot,
        inputs.sigCommitmentRoot], InField hash) := by
  refine ⟨decodeExtPubInputs_encode inputs, fun bytes size => encodeExtPubInputs_decode size, ?_⟩
  have column (k : Nat) (early : k < 18) : (buildTrace inputs sigHashes).row 0 k = inputs.toElements.getD k 0 := by
    refine (fill_other _ _ _ (.inl (by omega))).trans ?_
    have before {last : Nat} (late : 18 ≤ last) : k ≠ last := by omega
    rw [metadataRow, if_neg (before (by decide)), if_neg (before (by decide)), if_neg (before (by decide)),
      if_neg (before (by decide))]
  have word (n : U64) : BitVec.ofNat 64 ((n.toNat : Nat) : BaseElement).val = n := by
    rw [val_natCast_baseElement (by omega), BitVec.ofNat_toNat, BitVec.setWidth_eq]
  have count (n : U32) : BitVec.ofNat 32 ((n.toNat : Nat) : BaseElement).val = n := by
    rw [val_natCast_baseElement (by omega), BitVec.ofNat_toNat, BitVec.setWidth_eq]
  obtain ⟨blockIndex, epochId, txCount, blocksPerEpoch, merkleRootHash, validatorPkHash, skSeedHash, blockHash, smtRoot,
    sigCommitmentRoot, sigCount, batchSeqId⟩ := inputs
  simp (disch := decide) only [getPubInputs, column, colBlockIndex, colEpochId, colTxCount, colBlocksPerEpoch,
    colSigCount, colBatchSeqId, ExtendedBlockPublicInputs.toElements, getD_cons_succ, getD_cons_zero, word, count,
    ExtendedBlockPublicInputs.mk.injEq, fieldPairToBytes_eq_iff, forall_mem_cons, true_and, and_true]
  simp

theorem full_hash_not_read_back :
    getPubInputs (buildTrace { wrongEpochInputs with merkleRootHash := Vector.replicate 32 255 } []) ≠
      { wrongEpochInputs with merkleRootHash := Vector.replicate 32 255 } := by
  intro same
  have canonical := (fieldPairToBytes_eq_iff (Vector.replicate 32 255)).mp (congrArg (·.merkleRootHash) same)
  exact absurd canonical.1 (by decide)

end Bleep
