import Mathlib.Algebra.Order.BigOperators.Group.Finset
import Bleep.Block
import Bleep.PqCrypto
import Bleep.Consensus.ValidatorRegistry
import Bleep.Library.Quorum

namespace Bleep

open Words HashTable Results List Hex

def finalityDomain : Bytes := utf8 "BLEEP_FINALITY_CERTIFICATE_V1"
def committeeDomain : Bytes := utf8 "BLEEP_FINALITY_COMMITTEE_V1"

structure FinalityHeader where
  height : U64
  timestamp : U64
  chainId : String
  previousHash : String
  merkleRoot : String
  epochId : U64
  consensusMode : ConsensusMode
  protocolVersion : U32
  shardRegistryRoot : String
  shardId : U64
  shardStateRoot : String
  sigCommitmentRoot : Hash32
  blockHash : String
  deriving DecidableEq

open FinalityHeader

namespace FinalityHeader
variable (sha3 : Bytes → Hash32)

def fromBlock (block : Block) : FinalityHeader where
  height := block.index
  timestamp := block.timestamp
  chainId := block.chainId
  previousHash := block.previousHash
  merkleRoot := block.merkleRoot
  epochId := block.epochId
  consensusMode := block.consensusMode
  protocolVersion := block.protocolVersion
  shardRegistryRoot := block.shardRegistryRoot
  shardId := block.shardId
  shardStateRoot := block.shardStateRoot
  sigCommitmentRoot := block.sigCommitmentRoot
  blockHash := block.computeHash sha3

variable (header : FinalityHeader)

/-- The header that is hashed again: its signature and its proof are empty. -/
def asBlockHeader : BlockHeader where
  index := header.height
  timestamp := header.timestamp
  chainId := header.chainId
  previousHash := header.previousHash
  merkleRoot := header.merkleRoot
  validatorSignature := []
  zkProof := []
  epochId := header.epochId
  consensusMode := header.consensusMode
  protocolVersion := header.protocolVersion
  shardRegistryRoot := header.shardRegistryRoot
  shardId := header.shardId
  shardStateRoot := header.shardStateRoot
  sigCommitmentRoot := header.sigCommitmentRoot

def canonicalBytes : Bytes :=
  header.asBlockHeader.canonicalHashPreimage sha3 ++ (sha3 (utf8 header.blockHash)).toList

def calculatedBlockHash : String := header.asBlockHeader.canonicalHash sha3

def verifyHash : Except String Unit :=
  if header.blockHash ≠ header.calculatedBlockHash sha3 then
    .error "Finality header fields do not match its block hash"
  else .ok ()

end FinalityHeader

structure ValidatorSignature where
  validatorId : String
  signature : Bytes
  deriving DecidableEq

structure CommitteeMember where
  publicKey : Bytes
  votingPower : U128
  deriving DecidableEq

structure FinalityCommittee where
  members : HashMap String CommitteeMember
  totalPower : U128
  hash : Hash32

/-- `append_bytes_to_hasher`, and `append_string_to_hasher` for the bytes of a
string. -/
def appendBytesToHasher (hashed value : Bytes) : Bytes := hashed ++ Codec.lengthPrefixed 8 value

/-- The variables of `committee_from_registry`; `hashed` is what the hasher
has been given. -/
structure CommitteeBuild where
  members : HashMap String CommitteeMember
  keyOwners : List Bytes
  totalPower : U128
  hashed : Bytes

open CommitteeBuild

def CommitteeBuild.empty : CommitteeBuild := ⟨∅, [], 0, committeeDomain⟩

section Committee
variable (hexText : FromHexError → String) (sha3 : Bytes → Hash32)

/-- One turn of the loop over the active validators. -/
def CommitteeBuild.enter (build : CommitteeBuild) (validator : ValidatorIdentity) : Except String CommitteeBuild :=
  if validator.canParticipate = false then .ok build
  else do
    let publicKey ← (decode validator.signingKeyId).mapError
      fun error => s!"Validator {validator.id} has an invalid registered signing key: {hexText error}"
    let _ ← (PublicKey.fromBytes publicKey).mapError
      fun error => s!"Validator {validator.id} has an invalid registered SPHINCS+ key: {error.display}"
    if publicKey ∈ build.keyOwners then .error "Active committee contains a duplicate signing key"
    else
      let votingPower := validator.effectiveStake
      if votingPower = 0 then .error s!"Active validator {validator.id} has zero effective voting power"
      else do
        let totalPower ← okOr (checkedAdd build.totalPower votingPower) "Committee voting power overflow"
        return {
          members := build.members.insert validator.id ⟨publicKey, votingPower⟩
          keyOwners := publicKey :: build.keyOwners
          totalPower := totalPower
          hashed := appendBytesToHasher (appendBytesToHasher build.hashed (utf8 validator.id)) publicKey
            ++ leBytes 16 votingPower.toNat }

def committeeFromRegistry (registry : ValidatorRegistry) : Except String FinalityCommittee := do
  let build ← registry.getActiveValidators.foldlM (enter hexText) .empty
  return ⟨build.members, build.totalPower, sha3 build.hashed⟩

variable {hexText sha3} {build next : CommitteeBuild} {validator : ValidatorIdentity}

/-- What the loop does with a validator that may participate. -/
def CommitteeBuild.add (build : CommitteeBuild) (id : String) (member : CommitteeMember) : CommitteeBuild where
  members := build.members.insert id member
  keyOwners := member.publicKey :: build.keyOwners
  totalPower := build.totalPower + member.votingPower
  hashed := appendBytesToHasher (appendBytesToHasher build.hashed (utf8 id)) member.publicKey
    ++ leBytes 16 member.votingPower.toNat

/-- The member that a validator becomes. -/
structure CommitteeBuild.Admits (build : CommitteeBuild) (validator : ValidatorIdentity) (member : CommitteeMember) :
    Prop where
  able : validator.canParticipate = true
  key : decode validator.signingKeyId = .ok member.publicKey
  size : member.publicKey.length = sphincsPkLen
  fresh : member.publicKey ∉ build.keyOwners
  power : member.votingPower = validator.effectiveStake
  positive : member.votingPower ≠ 0
  fits : build.totalPower.toNat + member.votingPower.toNat < 2 ^ 128

theorem CommitteeBuild.Admits.enter {member} (admitted : build.Admits validator member) :
    build.enter hexText validator = .ok (build.add validator.id member) := by
  obtain ⟨publicKey, votingPower⟩ := member
  obtain ⟨able, key, size, fresh, rfl, positive, fits⟩ := admitted
  simp only [CommitteeBuild.enter, able, key, PublicKey.fromBytes_of_length size, fresh, positive, Except.mapError,
    checkedAdd_of_lt fits, okOr, bind, Except.bind, Bool.true_eq_false, if_false]
  rfl

theorem CommitteeBuild.enter_cases (done : build.enter hexText validator = .ok next) :
    next = build ∨ ∃ member, build.Admits validator member ∧ next = build.add validator.id member := by
  unfold enter at done
  split at done
  · cases done
    exact .inl rfl
  rename_i able
  obtain ⟨publicKey, decoded, done⟩ := ok_of_bind done
  obtain ⟨key, parsed, done⟩ := ok_of_bind done
  split at done
  · cases done
  rename_i fresh
  dsimp only at done
  split at done
  · cases done
  rename_i positive
  obtain ⟨totalPower, added, done⟩ := ok_of_bind done
  have sum := checkedAdd_eq_some.mp (ok_of_okOr added)
  have total : build.totalPower + validator.effectiveStake = totalPower := by
    rw [checkedAdd_of_lt (by omega)] at added
    exact Except.ok.inj added
  refine .inr ⟨⟨publicKey, validator.effectiveStake⟩, ⟨by simpa using able, ok_of_mapError decoded, ?_, fresh, rfl,
    positive, by dsimp only; omega⟩, ?_⟩
  · exact (PublicKey.bytes_of_fromBytes (ok_of_mapError parsed)) ▸ key.size
  · cases done
    rw [add, total]

end Committee

def twoThirdsThreshold (totalPower : U128) : U128 := totalPower / 3 * 2 + totalPower % 3 * 2 / 3

structure FinalizyCertificate where
  header : FinalityHeader
  finalizedEpoch : U64
  finalizedTimestamp : U64
  committeeHash : Hash32
  validatorSignatures : List ValidatorSignature
  deriving DecidableEq

open FinalizyCertificate

namespace FinalizyCertificate
section
variable (hexText : FromHexError → String) (sha3 : Bytes → Hash32) (sphincs : Sphincs)

def new (header : FinalityHeader) (finalizedEpoch finalizedTimestamp : U64) (registry : ValidatorRegistry) :
    Except String FinalizyCertificate := do
  header.verifyHash sha3
  if header.epochId ≠ finalizedEpoch then .error "Finalized epoch does not match the block header epoch"
  else do
    let committee ← committeeFromRegistry hexText sha3 registry
    if committee.totalPower = 0 then .error "Cannot create a finality certificate with an empty committee"
    else return {
      header := header
      finalizedEpoch := finalizedEpoch
      finalizedTimestamp := finalizedTimestamp
      committeeHash := committee.hash
      validatorSignatures := [] }

variable (certificate : FinalizyCertificate)

/-- The bytes every validator signs. -/
def signatureMessage : Bytes :=
  finalityDomain ++ Codec.lengthPrefixed 8 (certificate.header.canonicalBytes sha3)
    ++ le64 certificate.finalizedEpoch ++ le64 certificate.finalizedTimestamp ++ certificate.committeeHash.toList

def addValidatorSignature (validatorId : String) (signature : Bytes) : Except String FinalizyCertificate :=
  if validatorId.isEmpty then .error "Validator ID cannot be empty"
  else if certificate.validatorSignatures.any fun signer => signer.validatorId == validatorId then
    .error s!"Validator {validatorId} already signed this certificate"
  else .ok { certificate with
    validatorSignatures := certificate.validatorSignatures ++ [⟨validatorId, signature⟩] }

variable (committee : FinalityCommittee)

def verifyCommitteeHash : Except String Unit :=
  if certificate.committeeHash ≠ committee.hash then
    .error "Certificate committee hash does not match the registered active committee"
  else .ok ()

/-- One turn of the loop of `signer_voting_power`, with the ids seen so far. -/
def countSigner (counted : List String × U128) (signer : ValidatorSignature) :
    Except String (List String × U128) :=
  if signer.validatorId ∈ counted.1 then .error s!"Duplicate validator signature for {signer.validatorId}"
  else do
    let member ← okOr (committee.members.lookup signer.validatorId)
      s!"Validator {signer.validatorId} is not in the active committee"
    let total ← okOr (checkedAdd counted.2 member.votingPower) "Signer voting power overflow"
    return (signer.validatorId :: counted.1, total)

def signerVotingPower : Except String U128 := do
  let counted ← certificate.validatorSignatures.foldlM (countSigner committee) ([], 0)
  return counted.2

variable (registry : ValidatorRegistry)

def totalVotingPower : Except String U128 := do
  let committee ← committeeFromRegistry hexText sha3 registry
  certificate.verifyCommitteeHash committee
  certificate.signerVotingPower committee

def meetsQuorum : Except String Bool := do
  let committee ← committeeFromRegistry hexText sha3 registry
  certificate.verifyCommitteeHash committee
  let signedPower ← certificate.signerVotingPower committee
  return decide (twoThirdsThreshold committee.totalPower < signedPower)

/-- One turn of the loop of `verify_signatures`. -/
def verifySigner (message : Bytes) (validatorIds : List String)
    (signer : ValidatorSignature) : Except String (List String) :=
  if signer.validatorId ∈ validatorIds then .error s!"Duplicate validator signature for {signer.validatorId}"
  else do
    let member ← okOr (committee.members.lookup signer.validatorId)
      s!"Validator {signer.validatorId} is not in the active committee"
    let publicKey ← (PublicKey.fromBytes member.publicKey).mapError
      fun error => s!"Invalid registered SPHINCS+ public key for {signer.validatorId}: {error.display}"
    let signature ← (DigitalSignature.fromBytes signer.signature).mapError
      fun error => s!"Invalid SPHINCS+ signature for {signer.validatorId}: {error.display}"
    (SignatureScheme.verify sha3 sphincs message signature publicKey).mapError
      fun error => s!"SPHINCS+ signature verification failed for {signer.validatorId}: {error.display}"
    return signer.validatorId :: validatorIds

def verifySignatures : Except String Unit := do
  certificate.header.verifyHash sha3
  if certificate.header.epochId ≠ certificate.finalizedEpoch then
    .error "Finalized epoch does not match the block header epoch"
  else if certificate.validatorSignatures.isEmpty then .error "Certificate has no validator signatures"
  else do
    let committee ← committeeFromRegistry hexText sha3 registry
    certificate.verifyCommitteeHash committee
    let _ ← certificate.validatorSignatures.foldlM
      (verifySigner sha3 sphincs committee (certificate.signatureMessage sha3)) []
    return ()

end

end FinalizyCertificate

structure FinalityProof where
  certificate : FinalizyCertificate
  merklePath : List String
  dependentBlocks : List U64

structure FinalizityManager where
  finalizedBlocks : HashMap U64 FinalizyCertificate
  finalityProofs : HashMap U64 FinalityProof
  highestFinalizedHeight : U64

section Manager
variable (hexText : FromHexError → String) (sha3 : Bytes → Hash32) (sphincs : Sphincs)

def FinalityProof.verify (proof : FinalityProof) (registry : ValidatorRegistry) : Except String Unit := do
  proof.certificate.verifySignatures hexText sha3 sphincs registry
  let quorum ← proof.certificate.meetsQuorum hexText sha3 registry
  if quorum then return ()
  else do
    let power ← proof.certificate.totalVotingPower hexText sha3 registry
    .error s!"Certificate does not meet quorum: {power.toNat} signed voting power"

namespace FinalizityManager

def new : FinalizityManager := ⟨∅, ∅, 0⟩

variable (manager : FinalizityManager)

def finalizeBlock (certificate : FinalizyCertificate) (registry : ValidatorRegistry) :
    Except String FinalizityManager :=
  let height := certificate.header.height
  if (manager.finalizedBlocks.lookup height).isSome then .error s!"Block {height.toNat} is already finalized"
  else do
    certificate.verifySignatures hexText sha3 sphincs registry
    let quorum ← certificate.meetsQuorum hexText sha3 registry
    if quorum then return { manager with
      finalizedBlocks := manager.finalizedBlocks.insert height certificate
      highestFinalizedHeight := maximum manager.highestFinalizedHeight height }
    else .error s!"Certificate for block {height.toNat} does not meet quorum"

def recordProof (proof : FinalityProof) (registry : ValidatorRegistry) : Except String FinalizityManager := do
  let height := proof.certificate.header.height
  let finalized ← okOr (manager.finalizedBlocks.lookup height) s!"Block {height.toNat} is not finalized"
  if finalized.signatureMessage sha3 ≠ proof.certificate.signatureMessage sha3 then
    .error "Finality proof does not match the finalized block certificate"
  else do
    proof.verify hexText sha3 sphincs registry
    return { manager with finalityProofs := manager.finalityProofs.insert height proof }

end FinalizityManager

end Manager

section Headers
variable {sha3 : Bytes → Hash32}

/-- A block of version 5 or later whose proof is an envelope with a VRF output
other than zeros. -/
def BlockHeader.CarriesVrfOutput (header : BlockHeader) : Prop :=
  5 ≤ header.protocolVersion ∧ ∃ output rest, header.zkProof = vrfStarkEnvelopeMagic ++ output ++ rest ∧
    output.length = vrfOutputLen ∧ output ≠ List.replicate vrfOutputLen 0

theorem BlockHeader.committedVrfOutput_eq_zero_iff {header : BlockHeader} :
    header.committedVrfOutput = List.replicate vrfOutputLen 0 ↔
      ¬∃ output rest, header.zkProof = vrfStarkEnvelopeMagic ++ output ++ rest ∧
        output.length = vrfOutputLen ∧ output ≠ List.replicate vrfOutputLen 0 := by
  constructor
  · rintro zeros ⟨output, rest, envelope, size, visible⟩
    exact visible ((committedVrfOutput_of_envelope envelope size).symm.trans zeros)
  · intro bare
    unfold committedVrfOutput
    split
    · rename_i present
      obtain ⟨tail, envelope⟩ := isPrefixOf_iff_prefix.mp present.1
      have long := present.2
      rw [← envelope, drop_left] at long ⊢
      by_contra visible
      exact bare ⟨tail.take vrfOutputLen, tail.drop vrfOutputLen,
        by rw [append_assoc, take_append_drop, envelope], length_take_of_le long, visible⟩
    · rfl

theorem FinalityHeader.preimage_fromBlock_iff (block : Block) :
    block.toBlockHeader.canonicalHashPreimage sha3 =
        (fromBlock sha3 block).asBlockHeader.canonicalHashPreimage sha3 ↔ ¬block.CarriesVrfOutput := by
  have bare : (fromBlock sha3 block).asBlockHeader.committedVrfOutput = replicate vrfOutputLen 0 := rfl
  have version : (fromBlock sha3 block).asBlockHeader.protocolVersion = block.protocolVersion := rfl
  unfold BlockHeader.canonicalHashPreimage
  rw [bare, version]
  by_cases current : 5 ≤ block.protocolVersion
  · have carries : block.CarriesVrfOutput ↔ ¬block.committedVrfOutput = replicate vrfOutputLen 0 := by
      rw [BlockHeader.committedVrfOutput_eq_zero_iff, not_not]
      exact and_iff_right current
    rw [carries, not_not, if_pos current, if_pos current, if_pos current]
    exact append_right_inj _
  · rw [if_neg current, if_neg current, if_neg current]
    exact iff_of_true rfl fun carried => current carried.1

theorem FinalityHeader.verifyHash_fromBlock_iff (block : Block)
    (collisionFree : Set.InjOn sha3 {block.toBlockHeader.canonicalHashPreimage sha3,
      (fromBlock sha3 block).asBlockHeader.canonicalHashPreimage sha3}) :
    (fromBlock sha3 block).verifyHash sha3 = .ok () ↔ ¬block.CarriesVrfOutput := by
  have hash : (fromBlock sha3 block).blockHash = (fromBlock sha3 block).calculatedBlockHash sha3 ↔
      block.toBlockHeader.canonicalHashPreimage sha3 =
        (fromBlock sha3 block).asBlockHeader.canonicalHashPreimage sha3 := by
    constructor
    · intro same
      exact collisionFree (by simp) (by simp) (Vector.toList_inj.mp (encode_injective same))
    · intro same
      exact congrArg (fun input => encode (sha3 input).toList) same
  rw [← preimage_fromBlock_iff, ← hash, verifyHash]
  split
  · rename_i differs
    simp [differs]
  · rename_i same
    simp [not_not.mp same]

variable {hexText : FromHexError → String} {registry : ValidatorRegistry} {committee : FinalityCommittee}

/-- Before a committee that is not empty, only the hash of the header can be
the reason for a refusal. -/
theorem FinalizyCertificate.new_ok_iff {header}
    (valid : committeeFromRegistry hexText sha3 registry = .ok committee) (staffed : committee.totalPower ≠ 0)
    (timestamp : U64) : (∃ certificate, new hexText sha3 header header.epochId timestamp registry = .ok certificate) ↔
      header.verifyHash sha3 = .ok () := by
  cases checked : header.verifyHash sha3 with
  | error text => simp [new, checked, bind, Except.bind]
  | ok _ =>
    have made : new hexText sha3 header header.epochId timestamp registry =
        .ok ⟨header, header.epochId, timestamp, committee.hash, []⟩ := by
      simp only [new, checked, valid, bind, Except.bind, ne_eq, not_true_eq_false, if_false, if_neg staffed]
      rfl
    exact iff_of_true ⟨_, made⟩ rfl

/-- The header of a block verifies, and a committee that is valid and not empty
can start a certificate for it, exactly when the block's hash does not commit
to a VRF output. -/
theorem finality_header_of_block_iff (block : Block)
    (collisionFree : Set.InjOn sha3 {block.toBlockHeader.canonicalHashPreimage sha3,
      (fromBlock sha3 block).asBlockHeader.canonicalHashPreimage sha3})
    (valid : committeeFromRegistry hexText sha3 registry = .ok committee) (staffed : committee.totalPower ≠ 0)
    (timestamp : U64) :
    ((fromBlock sha3 block).verifyHash sha3 = .ok () ↔ ¬block.CarriesVrfOutput) ∧
    ((∃ certificate, new hexText sha3 (fromBlock sha3 block) block.epochId timestamp
      registry = .ok certificate) ↔ ¬block.CarriesVrfOutput) := by
  have verified := verifyHash_fromBlock_iff block collisionFree
  exact ⟨verified, (new_ok_iff valid staffed timestamp).trans verified⟩

end Headers

section Lone

def loneKey : Bytes := List.replicate sphincsPkLen 0

def loneMember : CommitteeMember := ⟨loneKey, 4⟩

def loneCommittee (sha3 : Bytes → Hash32) : FinalityCommittee :=
  ⟨(empty.add "alice" loneMember).members, 4, sha3 (empty.add "alice" loneMember).hashed⟩

variable {hexText : FromHexError → String} {sha3 : Bytes → Hash32}

theorem committeeFromRegistry_lone :
    committeeFromRegistry hexText sha3 (loneRegistry (encode loneKey)) = .ok (loneCommittee sha3) := by
  have admitted : empty.Admits
      { freshValidator "alice" (encode loneKey) 4 with state := .active } loneMember :=
    ⟨lone_canParticipate _, decode_encode _, length_replicate, not_mem_nil, rfl, by decide, by decide⟩
  rw [committeeFromRegistry, getActiveValidators_lone, foldlM_cons, admitted.enter]
  rfl

theorem loneCommittee_staffed : (loneCommittee sha3).totalPower ≠ 0 := by
  change (4 : U128) ≠ 0
  decide

/-- A block of the current version with a VRF output of ones. -/
def envelopeBlock (sha3 : Bytes → Hash32) : Block :=
  { Block.new sha3 8 1 [] "parent" with zkProof := vrfStarkEnvelopeMagic ++ List.replicate vrfOutputLen 1 }

theorem envelopeBlock_carries : (envelopeBlock sha3).CarriesVrfOutput := by
  refine ⟨by change (5 : U32) ≤ currentProtocolVersion; decide, replicate vrfOutputLen 1, [], ?_, by decide, by decide⟩
  rfl

/-- Whatever digest tells the two hashed headers apart: a block of the current
version with a VRF output gets no certificate from a valid committee. -/
theorem vrf_block_refused : ∃ (block : (Bytes → Hash32) → Block) (registry : ValidatorRegistry),
    ∀ (sha3 : Bytes → Hash32) (hexText : FromHexError → String),
      Set.InjOn sha3 {(block sha3).toBlockHeader.canonicalHashPreimage sha3,
        (fromBlock sha3 (block sha3)).asBlockHeader.canonicalHashPreimage sha3} →
      (∃ committee, committeeFromRegistry hexText sha3 registry = .ok committee ∧ committee.totalPower ≠ 0) ∧
      (fromBlock sha3 (block sha3)).verifyHash sha3 =
        .error "Finality header fields do not match its block hash" ∧
      ∀ timestamp, new hexText sha3 (fromBlock sha3 (block sha3))
        (block sha3).epochId timestamp registry = .error "Finality header fields do not match its block hash" := by
  refine ⟨envelopeBlock, loneRegistry (encode loneKey), fun sha3 hexText collisionFree => ?_⟩
  have unverified : ¬(fromBlock sha3 (envelopeBlock sha3)).verifyHash sha3 = .ok () := fun verified =>
    (verifyHash_fromBlock_iff _ collisionFree).mp verified envelopeBlock_carries
  have refused : (fromBlock sha3 (envelopeBlock sha3)).verifyHash sha3 =
      .error "Finality header fields do not match its block hash" := by
    unfold verifyHash at unverified ⊢
    split
    · rfl
    · rename_i same
      exact absurd (if_neg same) unverified
  refine ⟨⟨_, committeeFromRegistry_lone, loneCommittee_staffed⟩, refused, fun timestamp => ?_⟩
  simp only [new, refused]
  rfl

theorem lastBytes_separates : Set.InjOn lastBytes
    {(envelopeBlock lastBytes).toBlockHeader.canonicalHashPreimage lastBytes,
      (fromBlock lastBytes (envelopeBlock lastBytes)).asBlockHeader.canonicalHashPreimage lastBytes} := by
  have apart : lastBytes ((envelopeBlock lastBytes).toBlockHeader.canonicalHashPreimage lastBytes) ≠ lastBytes
      ((fromBlock lastBytes (envelopeBlock lastBytes)).asBlockHeader.canonicalHashPreimage
        lastBytes) := by
    decide +kernel
  rw [Set.injOn_pair]
  exact fun same => absurd same apart

theorem envelopeBlock_refused :
    (envelopeBlock lastBytes).CarriesVrfOutput ∧
    ¬(fromBlock lastBytes (envelopeBlock lastBytes)).verifyHash lastBytes = .ok () ∧
    ¬∃ certificate, new (fun _ => "") lastBytes
      (fromBlock lastBytes (envelopeBlock lastBytes)) 0 9 (loneRegistry (encode loneKey)) =
        .ok certificate := by
  obtain ⟨verified, made⟩ := finality_header_of_block_iff (envelopeBlock lastBytes) lastBytes_separates
    (@committeeFromRegistry_lone (fun _ => "") lastBytes) loneCommittee_staffed 9
  exact ⟨envelopeBlock_carries, fun done => verified.mp done envelopeBlock_carries,
    fun done => made.mp done envelopeBlock_carries⟩

end Lone

end Bleep
