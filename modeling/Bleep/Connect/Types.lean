import Bleep.Crypto
import Bleep.Library.HashTable
import Bleep.Library.Results

namespace Bleep.Connect

open Words List

/-- `to_be_bytes` of the unsigned integers. -/
def be32 (n : U32) : Bytes := Words.beBytes 4 n.toNat
def be64 (n : U64) : Bytes := Words.beBytes 8 n.toNat
def be128 (n : U128) : Bytes := Words.beBytes 16 n.toNat

theorem be32_delimited : Codec.Delimited Set.univ be32 := by
  refine .of_length (n := 4) (fun n => beBytes_length 4 n.toNat) fun a b same => ?_
  exact BitVec.eq_of_toNat_eq (beBytes_inj a.isLt b.isLt same)

theorem be64_delimited : Codec.Delimited Set.univ be64 := by
  refine .of_length (n := 8) (fun n => beBytes_length 8 n.toNat) fun a b same => ?_
  exact BitVec.eq_of_toNat_eq (beBytes_inj a.isLt b.isLt same)

theorem be128_delimited : Codec.Delimited Set.univ be128 := by
  refine .of_length (n := 16) (fun n => beBytes_length 16 n.toNat) fun a b same => ?_
  exact BitVec.eq_of_toNat_eq (beBytes_inj a.isLt b.isLt same)

inductive ChainId
  | ethereum | bitcoin | solana | polygon | arbitrum | optimism | base | avalanche | bsc | cosmos | near | polkadot
  | zkSync | starkNet | filecoin | celestia | sui | aptos | bleep
  | custom (id : U32)
  deriving DecidableEq

namespace ChainId

def canonicalName : ChainId → String
  | ethereum => "ethereum"
  | bitcoin => "bitcoin"
  | solana => "solana"
  | polygon => "polygon"
  | arbitrum => "arbitrum"
  | optimism => "optimism"
  | base => "base"
  | avalanche => "avalanche"
  | bsc => "bsc"
  | cosmos => "cosmos"
  | near => "near"
  | polkadot => "polkadot"
  | zkSync => "zksync"
  | starkNet => "starknet"
  | filecoin => "filecoin"
  | celestia => "celestia"
  | sui => "sui"
  | aptos => "aptos"
  | bleep => "bleep"
  | custom id => s!"custom-{id.toNat}"

def toU32 : ChainId → U32
  | ethereum => 1
  | bitcoin => 2
  | solana => 3
  | polygon => 4
  | arbitrum => 5
  | optimism => 6
  | base => 7
  | avalanche => 8
  | bsc => 9
  | cosmos => 10
  | near => 11
  | polkadot => 12
  | zkSync => 13
  | starkNet => 14
  | filecoin => 15
  | celestia => 16
  | sui => 17
  | aptos => 18
  | bleep => 999
  | custom id => id

end ChainId

structure UniversalAddress where
  chain : ChainId
  address : String
  deriving DecidableEq

def UniversalAddress.toBytes (self : UniversalAddress) : Bytes := be32 self.chain.toU32 ++ utf8 self.address

/-- `to_string`. -/
def UniversalAddress.display (self : UniversalAddress) : String := self.chain.canonicalName ++ ":" ++ self.address

inductive AssetType
  | native | erc20 | erc721 | erc1155 | splToken | cosmosIBC | custom
  deriving DecidableEq

structure AssetId where
  chain : ChainId
  contractAddress : Option String
  tokenId : Option String
  assetType : AssetType
  deriving DecidableEq

def AssetId.native (chain : ChainId) : AssetId := ⟨chain, none, none, .native⟩

def AssetId.erc20 (chain : ChainId) (contract : String) : AssetId := ⟨chain, some contract, none, .erc20⟩

inductive ExecutorTier
  | bootstrap | standard | premium | institutional
  deriving DecidableEq

namespace ExecutorTier

def bondRatioBps : ExecutorTier → U16
  | bootstrap => 20000
  | standard => 11000
  | premium => 5000
  | institutional => 1000

def maxTransferValue : ExecutorTier → U128
  | bootstrap => 100000000000
  | standard => 1000000000000
  | premium => 10000000000000
  | institutional => 100000000000000

def maxFailureRateBps : ExecutorTier → U16
  | bootstrap => 100
  | standard => 50
  | premium => 10
  | institutional => 1

end ExecutorTier

structure InstantIntent where
  intentId : Hash32
  createdAt : U64
  expiresAt : U64
  sourceChain : ChainId
  destChain : ChainId
  sourceAsset : AssetId
  destAsset : AssetId
  sourceAmount : U128
  minDestAmount : U128
  sender : UniversalAddress
  recipient : UniversalAddress
  maxSolverRewardBps : U16
  slippageToleranceBps : U16
  nonce : U64
  signature : Bytes
  escrowTxHash : String
  escrowProof : Bytes
  deriving DecidableEq

namespace InstantIntent

def idDomain : Bytes := utf8 "BLEEP-CONNECT-INTENT-V1:"

variable (self : InstantIntent)

/-- The bytes that an id is the digest of: the assets, the least amount to be
delivered and the expiry are not among them, and no length stands in front of
the addresses. -/
def idPreimage : Bytes :=
  idDomain ++ be32 self.sourceChain.toU32 ++ be32 self.destChain.toU32 ++ be128 self.sourceAmount
    ++ self.sender.toBytes ++ self.recipient.toBytes ++ be64 self.nonce ++ be64 self.createdAt

def calculateId (sha256 : Bytes → Hash32) (self : InstantIntent) : Hash32 := sha256 self.idPreimage

def isExpired (currentTime : U64) : Bool := self.expiresAt < currentTime

def calculateMinExecutorBond (tier : ExecutorTier) : U128 :=
  self.sourceAmount * tier.bondRatioBps.setWidth 128 / 10000

theorem idPreimage_eq_iff {first second : InstantIntent} :
    first.idPreimage = second.idPreimage ↔
      first.sourceChain.toU32 = second.sourceChain.toU32 ∧ first.destChain.toU32 = second.destChain.toU32 ∧
        first.sourceAmount = second.sourceAmount ∧
        first.sender.toBytes ++ first.recipient.toBytes = second.sender.toBytes ++ second.recipient.toBytes ∧
        first.nonce = second.nonce ∧ first.createdAt = second.createdAt := by
  constructor
  · intro same
    simp only [idPreimage, append_assoc] at same
    have same := append_cancel_left same
    obtain ⟨source, same⟩ := be32_delimited trivial trivial same
    obtain ⟨dest, same⟩ := be32_delimited trivial trivial same
    obtain ⟨amount, same⟩ := be128_delimited trivial trivial same
    -- the nonce and the time are the last sixteen bytes
    simp only [← append_assoc] at same
    obtain ⟨same, created⟩ := append_inj' same (by simp [be64])
    obtain ⟨parties, nonce⟩ := append_inj' same (by simp [be64])
    obtain ⟨nonce, -⟩ := be64_delimited trivial trivial (congrArg (· ++ []) nonce)
    obtain ⟨created, -⟩ := be64_delimited trivial trivial (congrArg (· ++ []) created)
    exact ⟨source, dest, amount, parties, nonce, created⟩
  · rintro ⟨source, dest, amount, parties, nonce, created⟩
    simp only [idPreimage, source, dest, amount, nonce, created]
    rw [append_assoc _ first.sender.toBytes, parties, ← append_assoc]

end InstantIntent

inductive FailureReason
  | executorTimeout
  | other (reason : String)
  deriving DecidableEq

inductive TransferStatus
  | created (createdAt : U64)
  | escrowLocked (escrowTx : String) (lockedAt : U64)
  | auctionOpen (openedAt : U64) (bidsReceived : U32)
  | bidAccepted (executor : UniversalAddress) (bondTx : String) (acceptedAt : U64)
  | executionStarted (executor : UniversalAddress) (startedAt : U64)
  | executionCompleted (executor : UniversalAddress) (destTx : String) (completedAt : U64)
  | failed (reason : FailureReason) (failedAt : U64)
  deriving DecidableEq

inductive CommitmentType
  | instantTransfer | zkProofBatch | fullNodeVerification | socialDecision
  deriving DecidableEq

/-- `as u8`. -/
def CommitmentType.toByte : CommitmentType → UInt8
  | instantTransfer => 0
  | zkProofBatch => 1
  | fullNodeVerification => 2
  | socialDecision => 3

structure StateCommitment where
  commitmentId : Hash32
  commitmentType : CommitmentType
  dataHash : Hash32
  layer : UInt8
  createdAt : U64
  deriving DecidableEq

structure ValidatorSignature where
  validatorId : Hash32
  signature : Bytes
  signedAt : U64
  deriving DecidableEq

structure CommitmentBlock where
  blockNumber : U64
  timestamp : U64
  previousHash : Hash32
  commitments : List StateCommitment
  validatorSignatures : List ValidatorSignature
  deriving DecidableEq

def StateCommitment.toBytes (self : StateCommitment) : Bytes :=
  self.commitmentId.toList ++ [self.commitmentType.toByte] ++ self.dataHash.toList ++ [self.layer] ++ be64 self.createdAt

/-- The signatures are not part of the hash. -/
def CommitmentBlock.calculateHash (sha256 : Bytes → Hash32) (self : CommitmentBlock) : Hash32 :=
  sha256 (utf8 "BLEEP-CONNECT-BLOCK-V1:" ++ be64 self.blockNumber ++ be64 self.timestamp ++ self.previousHash.toList
    ++ self.commitments.flatMap StateCommitment.toBytes)

inductive BleepConnectError
  | intentExpired (expiresAt : U64)
  | executorNotQualified (msg : String)
  | proofVerificationFailed (msg : String)
  | serializationError (msg : String)
  | databaseError (msg : String)
  | internalError (msg : String)
  deriving DecidableEq

/-- `ClassicalKeyPair::verify(..).unwrap_or(false)`. -/
def classicalVerify (sphincs : Sphincs) (publicKey message signature : Bytes) : Bool :=
  sphincs.verifyTxSignature message signature publicKey

end Bleep.Connect
