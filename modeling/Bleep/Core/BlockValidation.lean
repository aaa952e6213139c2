import Bleep.Block
import Bleep.SigCommitment
import Bleep.Zkp.ExtendedAir

namespace Bleep

open Block List

def extendedStarkMagic : Bytes := utf8 "EXTSTARK1"
def extPubInputsLen : Nat := 232
def vrfStarkEnvelopeHeaderLen : Nat := vrfStarkEnvelopeMagic.length + vrfOutputLen + vrfProofLen

/-- The Winterfell verifier, with the parsing of the proof. -/
abbrev VerifyStark := ExtendedBlockPublicInputs → Bytes → Bool

/-- `Transaction::verify_signature` of a block body, stricter than the pool's
check in the length of the signature. -/
def Transaction.verifySignature (hashes : Hashes) (sphincs : Sphincs) (tx : Transaction) : Bool :=
  if tx.signature.isEmpty then false
  else if tx.signature.length ≠ validatorSigLen ∨ tx.chainId.isEmpty then false
  else
    let pkBytes := tx.signature.take sphincsPkLen
    let sigBytes := tx.signature.drop sphincsPkLen
    if deriveAccountAddress hashes.sha256 pkBytes ≠ tx.sender then false
    else sphincs.verifyTxSignature (txPayload hashes.sha3 tx).toList sigBytes pkBytes

section PublicInputs

variable (bytes : Bytes)

def readU64 : U64 := BitVec.ofNat 64 (Words.fromLeBytes (bytes.take 8))

def readU32 : U32 := BitVec.ofNat 32 (Words.fromLeBytes (bytes.take 4))

def readHash : Hash32 := Vector.ofFn fun i => bytes.getD i 0

def Block.decodeExtPubInputs : Option ExtendedBlockPublicInputs :=
  if bytes.length < extPubInputsLen then none
  else some
    { blockIndex := readU64 bytes
      epochId := readU64 (bytes.drop 8)
      txCount := readU32 (bytes.drop 16)
      blocksPerEpoch := readU64 (bytes.drop 20)
      sigCount := readU32 (bytes.drop 28)
      batchSeqId := readU64 (bytes.drop 32)
      merkleRootHash := readHash (bytes.drop 40)
      validatorPkHash := readHash (bytes.drop 72)
      skSeedHash := readHash (bytes.drop 104)
      blockHash := readHash (bytes.drop 136)
      smtRoot := readHash (bytes.drop 168)
      sigCommitmentRoot := readHash (bytes.drop 200) }

def Block.encodeExtPubInputs (inputs : ExtendedBlockPublicInputs) : Bytes :=
  le64 inputs.blockIndex ++ le64 inputs.epochId ++ le32 inputs.txCount ++ le64 inputs.blocksPerEpoch
    ++ le32 inputs.sigCount ++ le64 inputs.batchSeqId ++ inputs.merkleRootHash.toList
    ++ inputs.validatorPkHash.toList ++ inputs.skSeedHash.toList ++ inputs.blockHash.toList
    ++ inputs.smtRoot.toList ++ inputs.sigCommitmentRoot.toList

theorem readU64_append (n : U64) (rest : Bytes) : readU64 (le64 n ++ rest) = n := by
  rw [readU64, take_left' (by simp [le64]), le64, Words.fromLeBytes_leBytes]
  apply BitVec.eq_of_toNat_eq
  simp only [BitVec.toNat_ofNat]
  omega

theorem readU32_append (n : U32) (rest : Bytes) : readU32 (le32 n ++ rest) = n := by
  rw [readU32, take_left' (by simp [le32]), le32, Words.fromLeBytes_leBytes]
  apply BitVec.eq_of_toNat_eq
  simp only [BitVec.toNat_ofNat]
  omega

theorem readHash_append (hash : Hash32) (rest : Bytes) : readHash (hash.toList ++ rest) = hash := by
  apply Vector.ext
  intro i bound
  simp [readHash, getElem?_append_left]

theorem readHash_toList (hash : Hash32) : readHash hash.toList = hash := by
  have whole := readHash_append hash []
  rwa [append_nil] at whole

/-- What is encoded is decoded again. -/
theorem Block.decodeExtPubInputs_encode (inputs : ExtendedBlockPublicInputs) :
    decodeExtPubInputs (encodeExtPubInputs inputs) = some inputs := by
  have width (hash : Hash32) : hash.toList.length = 32 := hash.length_toList
  have width64 (n : U64) : (le64 n).length = 8 := Words.leBytes_length ..
  have width32 (n : U32) : (le32 n).length = 4 := Words.leBytes_length ..
  simp [decodeExtPubInputs, encodeExtPubInputs, extPubInputsLen, width, width64, width32, drop_append,
    drop_eq_nil_of_le, readU64_append, readU32_append, readHash_append, readHash_toList]

end PublicInputs

section Proof
variable (sha3 : Bytes → Hash32) (verifyStark : VerifyStark)

variable (block : Block)

def Block.vrfStarkProofParts : Option (Bytes × Bytes × Bytes) :=
  if ¬vrfStarkEnvelopeMagic.isPrefixOf block.zkProof ∨ block.zkProof.length ≤ vrfStarkEnvelopeHeaderLen then none
  else
    let outputStart := vrfStarkEnvelopeMagic.length
    let proofStart := outputStart + vrfOutputLen
    let starkStart := proofStart + vrfProofLen
    some ((block.zkProof.drop outputStart).take vrfOutputLen, (block.zkProof.drop proofStart).take vrfProofLen,
      block.zkProof.drop starkStart)

/-- The checks that tie the public inputs to the block. -/
def Block.matchesPublicInputs (inputs : ExtendedBlockPublicInputs) : Bool :=
  inputs.blockIndex == block.index && inputs.epochId == block.epochId
    && inputs.txCount.toNat == block.transactions.length && inputs.sigCount.toNat == block.transactions.length
    && inputs.merkleRootHash == sha3 (utf8 block.merkleRoot) && inputs.smtRoot == sha3 (utf8 block.shardStateRoot)
    && inputs.blockHash == block.computeHashBytes sha3 && inputs.sigCommitmentRoot == block.sigCommitmentRoot

def Block.verifyExtendedStarkZkp (proofBytes : Bytes) : Bool :=
  let magicLen := extendedStarkMagic.length
  let totalHeader := magicLen + extPubInputsLen
  if proofBytes.length ≤ totalHeader then false
  else
    match Block.decodeExtPubInputs ((proofBytes.drop magicLen).take extPubInputsLen) with
    | none => false
    | some inputs => block.matchesPublicInputs sha3 inputs && verifyStark inputs (proofBytes.drop totalHeader)

/-- An empty proof is allowed for the unsigned genesis block only. -/
def Block.verifyZkp : Bool :=
  if block.zkProof.isEmpty then block.index == 0 && block.validatorSignature.isEmpty
  else if 5 ≤ block.protocolVersion then
    match block.vrfStarkProofParts with
    | none => false
    | some (_, _, starkProof) =>
      extendedStarkMagic.isPrefixOf starkProof && block.verifyExtendedStarkZkp sha3 verifyStark starkProof
  else
    extendedStarkMagic.isPrefixOf block.zkProof && block.verifyExtendedStarkZkp sha3 verifyStark block.zkProof

end Proof

section Envelopes
variable {sha3 : Bytes → Hash32} {verifyStark : VerifyStark} {block : Block} {inputs : ExtendedBlockPublicInputs}
  {output proof starkProof : Bytes}

/-- Public inputs and a proof in the producer's encoding are read back. -/
theorem Block.verifyExtendedStarkZkp_encoded (present : starkProof ≠ []) :
    block.verifyExtendedStarkZkp sha3 verifyStark
        (extendedStarkMagic ++ (encodeExtPubInputs inputs ++ starkProof)) =
      (block.matchesPublicInputs sha3 inputs && verifyStark inputs starkProof) := by
  have size : (encodeExtPubInputs inputs).length = extPubInputsLen := by
    simp [encodeExtPubInputs, extPubInputsLen, le64, le32]
  have positive := length_pos_iff.mpr present
  have long : ¬(extendedStarkMagic ++ (encodeExtPubInputs inputs ++ starkProof)).length ≤
      extendedStarkMagic.length + extPubInputsLen := by
    rw [length_append, length_append, size]
    omega
  have rest : (extendedStarkMagic ++ (encodeExtPubInputs inputs ++ starkProof)).drop
      (extendedStarkMagic.length + extPubInputsLen) = starkProof := by
    rw [← drop_drop, drop_left, ← size, drop_left]
  rw [verifyExtendedStarkZkp, if_neg long, drop_left, rest, ← size, take_left, decodeExtPubInputs_encode]

end Envelopes

namespace BlockValidator

section
variable (hashes : Hashes) (sphincs : Sphincs) (verifyStark : VerifyStark)

variable (block : Block)

def verifyMerkleRoot : Bool :=
  Block.calculateMerkleRoot hashes.sha3 block.transactions == block.merkleRoot

def verifySigCommitmentRoot : Bool :=
  let zeroRoot : Hash32 := Vector.replicate 32 0
  if ¬block.transactions.isEmpty ∧ block.sigCommitmentRoot = zeroRoot then false
  else if block.sigCommitmentRoot = zeroRoot then true
  else
    let sigCount := (block.transactions.filter fun tx => ¬tx.signature.isEmpty).length
    if sigCount = 0 then block.transactions.isEmpty
    else (computeSigCommitment hashes (block.transactions.map Transaction.signature)).1 == block.sigCommitmentRoot

def verifyTransactionSignatures (transactions : List Transaction) : Bool :=
  transactions.all (Transaction.verifySignature hashes sphincs)

def validateBlock (publicKey : Bytes) : Bool :=
  if verifyMerkleRoot hashes block = false then false
  else
    match block.verifySignature hashes.sha3 sphincs publicKey with
    | .error _ => false
    | .ok false => false
    | .ok true =>
      if block.verifyZkp hashes.sha3 verifyStark = false then false
      -- compact gossip without the signatures is never executed
      else if ¬block.transactions.isEmpty ∧ block.transactions.all fun tx => tx.signature.isEmpty then false
      else if verifySigCommitmentRoot hashes block = false then false
      else verifyTransactionSignatures hashes sphincs block.transactions

def validateBlockWithValidatorSet (validatorKeys : List Bytes) : Bool :=
  if block.validatorSignature.length < sphincsPkLen then false
  else
    let signerKey := block.validatorSignature.take sphincsPkLen
    if ¬validatorKeys.any fun registeredKey => registeredKey == signerKey then false
    else validateBlock hashes sphincs verifyStark block signerKey

def aiValidate : Bool :=
  if block.timestamp = 0 then false
  else if ¬block.transactions.isEmpty ∧ block.merkleRoot.isEmpty then false
  else if block.transactions.isEmpty ∧ ¬block.merkleRoot.isEmpty then false
  else if 10000 < block.transactions.length then false
  else true

def validateBlockLink (previous current : Block) : Bool := current.previousHash == previous.computeHash hashes.sha3

def networkValidate : Bool :=
  if block.previousHash.isEmpty ∧ 0 < block.index then false
  else if block.index = 0 ∧ ¬block.previousHash.isEmpty ∧ block.previousHash ≠ "0" then false
  else if block.epochId = BitVec.allOnes 64 then false
  else if 256 < block.shardId then false
  else true

def validateChainId (previous block : Block) : Bool :=
  !block.chainId.isEmpty && block.chainId == previous.chainId
    && block.transactions.all fun transaction => transaction.chainId == block.chainId

def validateFullBlock (previous block : Block) (publicKey : Bytes) : Bool :=
  validateChainId previous block && validateBlock hashes sphincs verifyStark block publicKey
    && validateBlockLink hashes previous block && networkValidate block && aiValidate block

def validateFullBlockWithValidatorSet (previous block : Block) (validatorKeys : List Bytes) : Bool :=
  validateChainId previous block && validateBlockWithValidatorSet hashes sphincs verifyStark block validatorKeys
    && validateBlockLink hashes previous block && networkValidate block && aiValidate block

end

end BlockValidator

end Bleep
