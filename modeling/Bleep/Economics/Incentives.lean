import Bleep.Crypto
import Bleep.Library.OrderedStore
import Bleep.Library.Results

namespace Bleep.Economics

open HashTable Words Results OrderedStore

inductive RewardType
  | blockProposal
  | participation
  | healingContribution
  | crossShardCoordination

def RewardType.code : RewardType → UInt8
  | blockProposal => 0
  | participation => 1
  | healingContribution => 2
  | crossShardCoordination => 3

inductive ValidatorError
  | validatorNotFound
  | validatorAlreadyExists
  | invalidStake

structure ValidatorMetrics where
  validatorId : Bytes
  blocksProposed : U32
  attestationsIncluded : U32
  healingParticipations : U32
  shardsCoordinated : U32

/-- The rewards are listed by type, as the ordered map holds them. -/
structure RewardRecord where
  validatorId : Bytes
  epoch : U64
  rewards : List (RewardType × U128)
  totalReward : U128
  computationHash : Bytes

def RewardRecord.computeHash (sha256 : Bytes → Hash32) (record : RewardRecord) : Bytes :=
  (sha256 (record.validatorId ++ le64 record.epoch ++ leBytes 16 record.totalReward.toNat
    ++ record.rewards.flatMap fun reward => reward.1.code :: leBytes 16 reward.2.toNat)).toList

structure ValidatorAccount where
  validatorId : Bytes
  stake : U128
  totalRewards : U128

structure RewardParameters where
  blockProposalReward : U128 := 32000000
  participationReward : U128 := 1000000
  healingMultiplier : U16 := 3
  crossShardReward : U128 := 5000000

structure ValidatorIncentivesEngine where
  validators : HashMap Bytes ValidatorAccount
  currentMetrics : HashMap Bytes ValidatorMetrics
  rewardHistory : HashMap (U64 × Bytes) RewardRecord
  rewardParams : RewardParameters

namespace ValidatorIncentivesEngine

def genesis : ValidatorIncentivesEngine := ⟨∅, ∅, ∅, {}⟩

variable (self : ValidatorIncentivesEngine)

def registerValidator (validatorId : Bytes) (stake : U128) :
    Except ValidatorError ValidatorIncentivesEngine := do
  ensure ((self.validators.lookup validatorId).isSome = false) .validatorAlreadyExists
  ensure (stake ≠ 0) .invalidStake
  return { self with validators := self.validators.insert validatorId ⟨validatorId, stake, 0⟩ }

def recordMetrics (validatorId : Bytes) (metrics : ValidatorMetrics) :
    Except ValidatorError ValidatorIncentivesEngine := do
  ensure ((self.validators.lookup validatorId).isSome = true) .validatorNotFound
  return { self with currentMetrics := self.currentMetrics.insert validatorId metrics }

/-- The metrics of a validator that is not registered are passed by. -/
def noteMetrics (metrics : ValidatorMetrics) : ValidatorIncentivesEngine :=
  (self.recordMetrics metrics.validatorId metrics).toOption.getD self

def rewards (params : RewardParameters) (metrics : ValidatorMetrics) : List (RewardType × U128) :=
  let proposalReward := saturatingMul (metrics.blocksProposed.setWidth 128) params.blockProposalReward
  let healingReward := saturatingMul
    (saturatingMul (metrics.healingParticipations.setWidth 128) params.participationReward)
    (params.healingMultiplier.setWidth 128) / 100
  let crossReward := saturatingMul (metrics.shardsCoordinated.setWidth 128) params.crossShardReward
  [(.blockProposal, proposalReward)]
    ++ (if 0 < metrics.attestationsIncluded then [(.participation, params.participationReward)] else [])
    ++ (if 0 < healingReward then [(.healingContribution, healingReward)] else [])
    ++ if 0 < crossReward then [(.crossShardCoordination, crossReward)] else []

def rewardTotal (params : RewardParameters) (metrics : ValidatorMetrics) : U128 :=
  ((rewards params metrics).map Prod.snd).foldl saturatingAdd 0

def rewardRecord (sha256 : Bytes → Hash32) (params : RewardParameters) (epoch : U64) (validatorId : Bytes)
    (metrics : ValidatorMetrics) : RewardRecord :=
  let record : RewardRecord := ⟨validatorId, epoch, rewards params metrics, rewardTotal params metrics, []⟩
  { record with computationHash := record.computeHash sha256 }

/-- A record is added to the account of its validator, where there is one, and
to the history. -/
def reward (record : RewardRecord) : ValidatorIncentivesEngine :=
  { self with
    validators := match self.validators.lookup record.validatorId with
      | none => self.validators
      | some account => self.validators.insert record.validatorId
          { account with totalRewards := saturatingAdd account.totalRewards record.totalReward }
    rewardHistory := self.rewardHistory.insert (record.epoch, record.validatorId) record }

/-- The loop runs over all metrics there are, in the order of the validators,
and leaves them in place. It does not fail. -/
def computeEpochRewards (sha256 : Bytes → Hash32) (self : ValidatorIncentivesEngine) (epoch : U64) :
    List RewardRecord × ValidatorIncentivesEngine :=
  let records := (scanFrom self.currentMetrics []).map fun entry =>
    rewardRecord sha256 self.rewardParams epoch entry.1 entry.2
  (records, records.foldl reward self)

end ValidatorIncentivesEngine

end Bleep.Economics
