import Bleep.Crypto

namespace Bleep

open List

inductive ConsensusMode
  | posNormal
  | pbftFastFinality
  | emergencyPow
  deriving DecidableEq

def ConsensusMode.discriminant : ConsensusMode → UInt8
  | posNormal => 0
  | pbftFastFinality => 1
  | emergencyPow => 2

theorem ConsensusMode.discriminant_injective : Function.Injective ConsensusMode.discriminant := by
  intro mode mode' same
  cases mode <;> cases mode' <;> first | rfl | exact absurd same (by decide)

def currentProtocolVersion : U32 := 5
def genesisProtocolVersion : U32 := 2
def blockHeaderHashDomainV2 : Bytes := utf8 "BLEEP_BLOCK_HEADER_V2"
def blockHeaderHashDomainV3 : Bytes := utf8 "BLEEP_BLOCK_HEADER_V3"
def vrfStarkEnvelopeMagic : Bytes := utf8 "BLEEP_VRF_STARK_V1"
def vrfOutputLen : Nat := 32
def vrfProofLen : Nat := 64

structure BlockHeader where
  index : U64
  timestamp : U64
  chainId : String
  previousHash : String
  merkleRoot : String
  validatorSignature : Bytes
  zkProof : Bytes
  epochId : U64
  consensusMode : ConsensusMode
  protocolVersion : U32
  shardRegistryRoot : String
  shardId : U64
  shardStateRoot : String
  sigCommitmentRoot : Hash32
  deriving DecidableEq

/-- A block is its header fields together with its transactions, so that
`BlockHeader::from_block` is the projection. -/
structure Block extends BlockHeader where
  transactions : List Transaction
  deriving DecidableEq

section
variable (sha3 : Bytes → Hash32)

def appendFixedHashField (value : String) : Bytes := (sha3 (utf8 value)).toList

/-- The VRF output that protocol version 5 commits to. -/
def BlockHeader.committedVrfOutput (header : BlockHeader) : Bytes :=
  if vrfStarkEnvelopeMagic.isPrefixOf header.zkProof
      ∧ vrfOutputLen ≤ (header.zkProof.drop vrfStarkEnvelopeMagic.length).length then
    (header.zkProof.drop vrfStarkEnvelopeMagic.length).take vrfOutputLen
  else List.replicate vrfOutputLen 0

variable {header header' : BlockHeader}

theorem BlockHeader.committedVrfOutput_of_envelope {output rest}
    (envelope : header.zkProof = vrfStarkEnvelopeMagic ++ output ++ rest) (size : output.length = vrfOutputLen) :
    header.committedVrfOutput = output := by
  have opened : header.zkProof.drop vrfStarkEnvelopeMagic.length = output ++ rest := by
    rw [envelope, append_assoc, drop_left]
  have marked : vrfStarkEnvelopeMagic.isPrefixOf header.zkProof = true := by
    rw [ isPrefixOf_iff_prefix, envelope, append_assoc]
    exact prefix_append _ _
  rw [committedVrfOutput, opened, if_pos ⟨marked, by rw [length_append]; omega⟩, ← size, take_left]

def BlockHeader.canonicalHashPreimage (header : BlockHeader) : Bytes :=
  (if 5 ≤ header.protocolVersion then blockHeaderHashDomainV3 else blockHeaderHashDomainV2)
    ++ le64 header.index
    ++ le64 header.timestamp
    ++ appendFixedHashField sha3 header.chainId
    ++ appendFixedHashField sha3 header.previousHash
    ++ appendFixedHashField sha3 header.merkleRoot
    ++ le64 header.epochId
    ++ [header.consensusMode.discriminant]
    ++ le32 header.protocolVersion
    ++ appendFixedHashField sha3 header.shardRegistryRoot
    ++ le64 header.shardId
    ++ appendFixedHashField sha3 header.shardStateRoot
    ++ header.sigCommitmentRoot.toList
    ++ (if 5 ≤ header.protocolVersion then header.committedVrfOutput else [])

def BlockHeader.canonicalHash (header : BlockHeader) : String :=
  Hex.encode (sha3 (header.canonicalHashPreimage sha3)).toList

def Block.computeHash (block : Block) : String := block.toBlockHeader.canonicalHash sha3

/-- The source decodes the first 64 characters of `compute_hash`, which is
the digest it was encoded from. -/
def Block.computeHashBytes (block : Block) : Hash32 :=
  sha3 (block.toBlockHeader.canonicalHashPreimage sha3)

/-- Headers with the same fields, as far as they are hashed: the strings up to
their digests, and the VRF output where the version commits to it. -/
structure BlockHeader.Agrees (header header' : BlockHeader) : Prop where
  index : header.index = header'.index
  timestamp : header.timestamp = header'.timestamp
  chainId : sha3 (utf8 header.chainId) = sha3 (utf8 header'.chainId)
  previousHash : sha3 (utf8 header.previousHash) = sha3 (utf8 header'.previousHash)
  merkleRoot : sha3 (utf8 header.merkleRoot) = sha3 (utf8 header'.merkleRoot)
  epochId : header.epochId = header'.epochId
  consensusMode : header.consensusMode = header'.consensusMode
  protocolVersion : header.protocolVersion = header'.protocolVersion
  shardRegistryRoot : sha3 (utf8 header.shardRegistryRoot) = sha3 (utf8 header'.shardRegistryRoot)
  shardId : header.shardId = header'.shardId
  shardStateRoot : sha3 (utf8 header.shardStateRoot) = sha3 (utf8 header'.shardStateRoot)
  sigCommitmentRoot : header.sigCommitmentRoot = header'.sigCommitmentRoot
  vrfOutput : 5 ≤ header.protocolVersion → header.committedVrfOutput = header'.committedVrfOutput

/-- The fixed widths of the encoding let every field be read off at its place. -/
theorem BlockHeader.canonicalHashPreimage_inj
    (same : header.canonicalHashPreimage sha3 = header'.canonicalHashPreimage sha3) : header.Agrees sha3 header' := by
  have domain (header : BlockHeader) :
      (if 5 ≤ header.protocolVersion then blockHeaderHashDomainV3 else blockHeaderHashDomainV2).length = 21 := by
    split <;> rfl
  simp only [BlockHeader.canonicalHashPreimage, appendFixedHashField, append_assoc] at same
  obtain ⟨-, same⟩ := append_inj same (by rw [domain, domain])
  obtain ⟨index, same⟩ := le64_delimited trivial trivial same
  obtain ⟨timestamp, same⟩ := le64_delimited trivial trivial same
  obtain ⟨chainId, same⟩ := hash32_delimited trivial trivial same
  obtain ⟨previousHash, same⟩ := hash32_delimited trivial trivial same
  obtain ⟨merkleRoot, same⟩ := hash32_delimited trivial trivial same
  obtain ⟨epochId, same⟩ := le64_delimited trivial trivial same
  obtain ⟨mode, same⟩ := append_inj same rfl
  obtain ⟨version, same⟩ := le32_delimited trivial trivial same
  obtain ⟨shardRegistryRoot, same⟩ := hash32_delimited trivial trivial same
  obtain ⟨shardId, same⟩ := le64_delimited trivial trivial same
  obtain ⟨shardStateRoot, same⟩ := hash32_delimited trivial trivial same
  obtain ⟨sigCommitmentRoot, vrf⟩ := hash32_delimited trivial trivial same
  refine ⟨index, timestamp, chainId, previousHash, merkleRoot, epochId,
    ConsensusMode.discriminant_injective (singleton_inj.mp mode), version, shardRegistryRoot, shardId,
    shardStateRoot, sigCommitmentRoot, fun current => ?_⟩
  rwa [if_pos current, if_pos (version ▸ current)] at vrf

theorem BlockHeader.Agrees.committed (agrees : header.Agrees sha3 header') :
    (if 5 ≤ header'.protocolVersion then header.committedVrfOutput else []) =
      if 5 ≤ header'.protocolVersion then header'.committedVrfOutput else [] :=
  if_ctx_congr Iff.rfl (fun current => agrees.vrfOutput (agrees.protocolVersion ▸ current)) fun _ => rfl

theorem BlockHeader.Agrees.canonicalHashPreimage (agrees : header.Agrees sha3 header') :
    header.canonicalHashPreimage sha3 = header'.canonicalHashPreimage sha3 := by
  simp only [BlockHeader.canonicalHashPreimage, appendFixedHashField, agrees.committed, agrees.index, agrees.timestamp,
    agrees.chainId, agrees.previousHash, agrees.merkleRoot, agrees.epochId, agrees.consensusMode,
    agrees.protocolVersion, agrees.shardRegistryRoot, agrees.shardId, agrees.shardStateRoot, agrees.sigCommitmentRoot]

def merkleLevel : List Hash32 → List Hash32
  | left :: right :: rest => sha3 (left.toList ++ right.toList) :: merkleLevel rest
  | [last] => [sha3 (last.toList ++ last.toList)]
  | [] => []

theorem merkleLevel_length (level : List Hash32) : (merkleLevel sha3 level).length = (level.length + 1) / 2 := by
  induction level using merkleLevel.induct with
  | case1 left right rest ih =>
    simp only [merkleLevel, length_cons, ih]
    omega
  | case2 last => simp [merkleLevel]
  | case3 => simp [merkleLevel]

/-- The loop of `calculate_merkle_root`, until one node is left. -/
def merkleTop (level : List Hash32) : List Hash32 :=
  if 1 < level.length then merkleTop (merkleLevel sha3 level) else level
termination_by level.length
decreasing_by
  rw [merkleLevel_length]
  omega

def Block.calculateMerkleRoot (transactions : List Transaction) : String :=
  match merkleTop sha3 (transactions.map (txPayload sha3)) with
  | [] => ""
  | top :: _ => Hex.encode top.toList

def Block.new (now index : U64) (transactions : List Transaction) (previousHash : String) : Block where
  index := index
  timestamp := now
  chainId := defaultChainId
  transactions := transactions
  previousHash := previousHash
  merkleRoot := Block.calculateMerkleRoot sha3 transactions
  validatorSignature := []
  zkProof := []
  epochId := 0
  consensusMode := .posNormal
  protocolVersion := currentProtocolVersion
  shardRegistryRoot := String.ofList (List.replicate 64 '0')
  shardId := 0
  shardStateRoot := String.ofList (List.replicate 64 '0')
  sigCommitmentRoot := Vector.replicate 32 0

/-- The time of `Block::new` is overwritten. -/
def Block.genesis : Block :=
  { Block.new sha3 0 0 [] "0" with timestamp := 0, protocolVersion := genesisProtocolVersion }

def Block.genesisForChain (chainId : String) : Block := { Block.genesis sha3 with chainId := chainId }

def Block.withConsensusAndSharding (now index : U64) (transactions : List Transaction)
    (previousHash : String) (epochId : U64) (consensusMode : ConsensusMode) (protocolVersion : U32)
    (shardRegistryRoot : String) (shardId : U64) (shardStateRoot : String) : Block where
  index := index
  timestamp := now
  chainId := defaultChainId
  transactions := transactions
  previousHash := previousHash
  merkleRoot := Block.calculateMerkleRoot sha3 transactions
  validatorSignature := []
  zkProof := []
  epochId := epochId
  consensusMode := consensusMode
  protocolVersion := protocolVersion
  shardRegistryRoot := shardRegistryRoot
  shardId := shardId
  shardStateRoot := shardStateRoot
  sigCommitmentRoot := Vector.replicate 32 0

variable (sphincs : Sphincs)

def Block.signBlockWithPk (block : Block) (sk pk : Bytes) : Except String Block :=
  if pk.length ≠ sphincsPkLen then
    .error ("Public key must be " ++ toString sphincsPkLen ++ " bytes, got " ++ toString pk.length)
  else
    match sphincs.secretKey sk with
    | .error e =>
      .error ("Invalid SPHINCS+ secret key (" ++ toString sk.length ++ " bytes): " ++ e)
    | .ok _ =>
      .ok { block with
        validatorSignature := pk ++ sphincs.detachedSign (block.computeHashBytes sha3).toList sk }

theorem Block.signBlockWithPk_ok {block : Block} {signed sk pk}
    (done : block.signBlockWithPk sha3 sphincs sk pk = .ok signed) : signed = { block with
      validatorSignature := pk ++ sphincs.detachedSign (block.computeHashBytes sha3).toList sk } := by
  unfold Block.signBlockWithPk at done
  split at done
  · cases done
  split at done
  · cases done
  cases done
  rfl

def Block.verifySignature (block : Block) (publicKey : Bytes) : Except String Bool :=
  if block.validatorSignature.isEmpty then .ok (block.index == 0)
  else if block.validatorSignature.length ≠ validatorSigLen then .ok false
  else
    let storedPk := block.validatorSignature.take sphincsPkLen
    let sig := block.validatorSignature.drop sphincsPkLen
    if publicKey.length ≠ sphincsPkLen ∨ storedPk ≠ publicKey then .ok false
    else
      match sphincs.publicKey storedPk with
      | .error e => .error ("Invalid SPHINCS+ public key: " ++ e)
      | .ok _ =>
        match sphincs.detachedSignature sig with
        | .error e => .error ("Invalid SPHINCS+ signature: " ++ e)
        | .ok _ => .ok (sphincs.verifyDetachedSignature sig (block.computeHashBytes sha3).toList storedPk)

variable {sha3 sphincs} {block : Block} {publicKey : Bytes}

theorem Block.verifySignature_of_parses (size : block.validatorSignature.length = validatorSigLen)
    (signer : block.validatorSignature.take sphincsPkLen = publicKey)
    (accepted : sphincs.publicKey publicKey = .ok ())
    (parses : sphincs.detachedSignature (block.validatorSignature.drop sphincsPkLen) = .ok ()) :
    block.verifySignature sha3 sphincs publicKey = .ok (sphincs.verifyDetachedSignature
      (block.validatorSignature.drop sphincsPkLen) (block.computeHashBytes sha3).toList publicKey) := by
  have present : block.validatorSignature.isEmpty = false := by
    rw [isEmpty_eq_false_iff, ← length_pos_iff, size]
    decide
  have length : publicKey.length = sphincsPkLen := by
    rw [← signer, length_take, size]
    decide
  simp [Block.verifySignature, present, size, signer, length, accepted, parses]

end

end Bleep
