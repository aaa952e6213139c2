import Bleep.Block
import Bleep.SigCommitment
import Bleep.Zkp.AirAcceptance

namespace Bleep

open BitVec Nat

def maxTxsPerBlock : Nat := 4096
def blocksPerEpochConstant : U64 := 1000

structure ProducerConfig where
  chainId : String
  validatorSk : Bytes
  validatorPk : Bytes
  protocolVersion : U32

def encodeVrfStarkEnvelope (output proof starkProof : Bytes) : Bytes :=
  vrfStarkEnvelopeMagic ++ output ++ proof ++ starkProof

/-- The VRF of an external library: output and proof for a secret key, a
height and the parent hash. -/
abbrev CreateVrfProof := Bytes → U64 → String → Except String (Bytes × Bytes)

section
variable (hashes : Hashes) (sphincs : Sphincs) (createVrfProof : CreateVrfProof) (config : ProducerConfig)

/-- The block of `produce_one_inner` with its signature commitment, before
it is signed, and the signature hashes. -/
def assembleBlock (now nextHeight : U64) (blockTxs : List Transaction) (prevHash : String)
    (stateRoot : Hash32) : Block × List Hash32 :=
  let epochId := nextHeight / blocksPerEpochConstant
  let block := Block.withConsensusAndSharding hashes.sha3 now nextHeight blockTxs prevHash epochId .posNormal
    config.protocolVersion (Hex.encode (stateRoot.toList.take 16)) 0 (Hex.encode stateRoot.toList)
  let rawSigs := blockTxs.map (·.signature)
  let (root, sigHashes) :=
    if rawSigs.isEmpty then (Vector.replicate 32 0, []) else computeSigCommitment hashes rawSigs
  ({ block with chainId := config.chainId, sigCommitmentRoot := root }, sigHashes)

/-- The VRF envelope without a STARK, then the block signature. -/
def sealBlock (block : Block) : Except String Block :=
  match createVrfProof config.validatorSk block.index block.previousHash with
  | .error error => .error ("Block " ++ toString block.index.toNat ++ " VRF generation failed: " ++ error)
  | .ok (output, proof) =>
    let carrying := { block with zkProof := encodeVrfStarkEnvelope output proof [] }
    match carrying.signBlockWithPk hashes.sha3 sphincs config.validatorSk config.validatorPk with
    | .error e => .error ("Block " ++ toString block.index.toNat ++ " signing failed: " ++ e)
    | .ok signed => .ok signed

/-- The epoch length which `generate_extended_proof` calculates back. -/
def deriveBlocksPerEpoch (block : Block) : U64 :=
  if 0 < block.epochId ∧ 0 < block.index then block.index / Words.maximum block.epochId 1 else 100

/-- The public inputs of `generate_extended_proof`. The source decodes the
block hash from its text, which cannot fail by `Block.decode_computeHash`. -/
def extendedPublicInputs (block : Block) (sigCommitmentRoot : Hash32) (sigHashes : List Hash32) :
    ExtendedBlockPublicInputs where
  blockIndex := block.index
  epochId := block.epochId
  txCount := BitVec.ofNat 32 block.transactions.length
  blocksPerEpoch := deriveBlocksPerEpoch block
  merkleRootHash := hashes.sha3 (utf8 block.merkleRoot)
  validatorPkHash := hashes.sha3 config.validatorPk
  skSeedHash := hashes.sha3 (utf8 "bleep_sk_seed_hash_v1" ++ (hashes.sha3 config.validatorSk).toList)
  blockHash := block.computeHashBytes hashes.sha3
  smtRoot := hashes.sha3 (utf8 block.shardStateRoot)
  sigCommitmentRoot := sigCommitmentRoot
  sigCount := BitVec.ofNat 32 sigHashes.length
  batchSeqId := block.index

/-- Steps 5 to 8 of `produce_one_inner`, up to the public inputs of the proof. -/
def produceProofInputs (now nextHeight : U64) (blockTxs : List Transaction) (prevHash : String)
    (stateRoot : Hash32) : Except String ExtendedBlockPublicInputs :=
  let (block, sigHashes) := assembleBlock hashes config now nextHeight blockTxs prevHash stateRoot
  match sealBlock hashes sphincs createVrfProof config block with
  | .error e => .error e
  | .ok sealed => .ok (extendedPublicInputs hashes config sealed block.sigCommitmentRoot sigHashes)

end

variable {hashes : Hashes} {sphincs : Sphincs} {createVrfProof : CreateVrfProof} {config : ProducerConfig}

theorem produceProofInputs_fields {now nextHeight blockTxs prevHash stateRoot inputs}
    (run : produceProofInputs hashes sphincs createVrfProof config now nextHeight blockTxs prevHash stateRoot =
      .ok inputs) :
    inputs.blockIndex = nextHeight ∧ inputs.batchSeqId = nextHeight ∧
      inputs.epochId = nextHeight / blocksPerEpochConstant ∧
      inputs.blocksPerEpoch =
        (if 0 < nextHeight / blocksPerEpochConstant ∧ 0 < nextHeight then
          nextHeight / Words.maximum (nextHeight / blocksPerEpochConstant) 1 else 100) ∧
      inputs.txCount = BitVec.ofNat 32 blockTxs.length ∧ inputs.sigCount = BitVec.ofNat 32 blockTxs.length := by
  unfold produceProofInputs at run
  dsimp only at run
  split at run
  · cases run
  rename_i sealed sealing
  cases run
  unfold sealBlock at sealing
  split at sealing
  · cases sealing
  dsimp only at sealing
  split at sealing
  · cases sealing
  rename_i signed signing
  cases sealing
  cases Block.signBlockWithPk_ok _ _ signing
  refine ⟨rfl, rfl, rfl, rfl, rfl, congrArg (BitVec.ofNat 32) ?_⟩
  cases blockTxs with
  | nil => rfl
  | cons tx rest => simp [assembleBlock, computeSigCommitment]

/-- Dividing a height by the quotient of the height by its epoch gives the
epoch back, once the epoch length is at least the number of epochs it
rounds over. -/
theorem div_div_epoch {h} (late : 1000 ≤ h) : h / (h / (h / 1000)) = h / 1000 := by
  have epoch : 1 ≤ h / 1000 := (one_le_div_iff (by decide)).mpr late
  have quotient : 1000 ≤ h / (h / 1000) :=
    (le_div_iff_mul_le epoch).mpr (by rw [Nat.mul_comm]; exact div_mul_le_self h 1000)
  refine Nat.div_eq_of_lt_le ?_ ?_
  · rw [Nat.mul_comm]
    exact div_mul_le_self h (h / 1000)
  · calc h < 1000 * (h / 1000 + 1) := lt_mul_div_succ h (by decide)
      _ ≤ h / (h / 1000) * (h / 1000 + 1) := mul_le_mul_right _ quotient
      _ = (h / 1000 + 1) * (h / (h / 1000)) := Nat.mul_comm _ _

/-- The height at which the back-calculated epoch length agrees with the
epoch id: in epoch 0 it is the default 100, so the metadata of the heights
100 to 999 is inconsistent. -/
theorem produced_inputs_consistent_iff {now nextHeight : U64} {blockTxs : List Transaction}
    {prevHash : String} {stateRoot : Hash32} {inputs : ExtendedBlockPublicInputs}
    (positive : 1 ≤ nextHeight.toNat) (size : 1 ≤ blockTxs.length ∧ blockTxs.length ≤ maxTxsPerBlock)
    (run : produceProofInputs hashes sphincs createVrfProof config now nextHeight blockTxs prevHash stateRoot =
      .ok inputs) :
    inputs.isConsistent = true ↔ nextHeight.toNat < 100 ∨ 1000 ≤ nextHeight.toNat := by
  obtain ⟨index, sequence, epoch, length, txs, sigs⟩ := produceProofInputs_fields run
  have cap : (BitVec.ofNat 32 blockTxs.length : U32) ≤ maxBlockTransactions := by
    have bound : blockTxs.length ≤ 4096 := size.2
    rw [le_def, toNat_ofNat, mod_eq_of_lt (by omega)]
    exact bound
  have epochNat : (nextHeight / blocksPerEpochConstant).toNat = nextHeight.toNat / 1000 := BitVec.toNat_udiv
  rw [isConsistent_iff, index, sequence, epoch, txs, sigs]
  simp only [cap, true_and]
  by_cases early : nextHeight.toNat < 1000
  · -- epoch 0: the default length 100
    have zero : nextHeight / blocksPerEpochConstant = 0 :=
      BitVec.eq_of_toNat_eq (epochNat.trans (div_eq_of_lt early))
    have default : inputs.blocksPerEpoch = 100 := by
      rw [length, zero]
      rfl
    rw [default, zero]
    constructor
    · rintro ⟨-, same⟩
      have quotient : 0 = nextHeight.toNat / 100 := (congrArg BitVec.toNat same).trans BitVec.toNat_udiv
      omega
    · intro low
      refine ⟨by decide, BitVec.eq_of_toNat_eq ?_⟩
      exact (div_eq_of_lt (by omega : nextHeight.toNat < 100)).symm
  · have quotient : inputs.blocksPerEpoch.toNat = nextHeight.toNat / (nextHeight.toNat / 1000) := by
      have later : 1 ≤ nextHeight.toNat / 1000 := by omega
      rw [length, if_pos ⟨by rw [lt_def, epochNat]; exact later, by rw [lt_def]; exact positive⟩,
        BitVec.toNat_udiv, Words.toNat_maximum, epochNat]
      congr 1
      exact max_eq_left later
    refine ⟨fun _ => .inr (by omega), fun _ => ⟨?_, BitVec.eq_of_toNat_eq ?_⟩⟩
    · intro zero
      have round := div_div_epoch (by omega : 1000 ≤ nextHeight.toNat)
      rw [← quotient, zero] at round
      have none : nextHeight.toNat / 0 = nextHeight.toNat / 1000 := round
      omega
    · rw [epochNat, BitVec.toNat_udiv, quotient, div_div_epoch (by omega)]

/-- Digests of the real sizes, for evaluation only. -/
def zeroHashes : Hashes where
  sha3 _ := Vector.replicate 32 0
  sha256 _ := Vector.replicate 32 0
  blake3 _ := Vector.replicate 32 0

def sampleConfig : ProducerConfig where
  chainId := defaultChainId
  validatorSk := List.replicate 128 0
  validatorPk := List.replicate 64 0
  protocolVersion := currentProtocolVersion

def sampleTransaction : Transaction where
  chainId := defaultChainId
  sender := "alice"
  receiver := "bob"
  amount := 1
  timestamp := 0
  nonce := 0
  signature := []

def sampleInputs (nextHeight : U64) : Except String ExtendedBlockPublicInputs :=
  produceProofInputs zeroHashes sizedSphincs (fun _ _ _ => .ok (List.replicate 32 0, List.replicate 64 0))
    sampleConfig 0 nextHeight [sampleTransaction] "parent" (Vector.replicate 32 0)

theorem height_2500_inputs_consistent : ∃ inputs, sampleInputs 2500 = .ok inputs ∧ inputs.isConsistent = true := by
  have positive : 1 ≤ (2500 : U64).toNat := by decide
  have size : 1 ≤ [sampleTransaction].length ∧ [sampleTransaction].length ≤ maxTxsPerBlock := by decide
  obtain ⟨inputs, run⟩ : ∃ inputs, sampleInputs 2500 = .ok inputs := ⟨_, rfl⟩
  exact ⟨inputs, run, (produced_inputs_consistent_iff positive size run).mpr (by decide)⟩

theorem height_100_inputs_inconsistent :
    ∃ inputs, sampleInputs 100 = .ok inputs ∧ inputs.isConsistent = false :=
  ⟨_, rfl, rfl⟩

end Bleep
