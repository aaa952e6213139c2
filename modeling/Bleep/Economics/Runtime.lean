import Bleep.Economics.FeeMarket
import Bleep.Economics.Incentives
import Bleep.Economics.OracleBridge
import Bleep.Economics.Tokenomics

namespace Bleep.Economics

open HashTable Words Results

/-- The split of a fee; the products wrap. -/
structure FeeDistribution where
  burned : U128
  validatorReward : U128
  treasury : U128
  totalFee : U128

def FeeDistribution.compute (totalFee : U128) : FeeDistribution :=
  let burned := totalFee * 2500 / 10000
  let treasury := totalFee * 2500 / 10000
  ⟨burned, saturatingSub (saturatingSub totalFee burned) treasury, treasury, totalFee⟩

structure EpochInput where
  epoch : U64
  blockCount : U64
  feeRevenue : U128
  avgUtilisationBps : U16
  validatorMetrics : List ValidatorMetrics
  oracleUpdates : List PriceUpdate

structure EpochOutput where
  epoch : U64
  newBaseFee : U128
  totalEmitted : U128
  totalBurned : U128
  circulatingSupply : U128
  rewardRecords : List RewardRecord
  supplyStateHash : Bytes
  bleepUsdPrice : Option U128

inductive RuntimeError
  | tokenomics (error : TokenomicsError)
  | feeMarket (error : FeeMarketError)
  | oracle (error : OracleError)
  | invariantViolation (message : String)

structure BleepEconomics where
  tokenomics : CanonicalTokenomicsEngine
  feeMarket : FeeMarket
  validators : ValidatorIncentivesEngine
  oracleBridge : OracleBridgeEngine

def TokenomicsError.display : TokenomicsError → String
  | invalidSupplyState message => s!"Invalid supply state: {message}"
  | hashMismatch message => s!"Hash mismatch: {message}"
  | invalidEmissionSchedule message => s!"Invalid emission schedule: {message}"
  | excessiveEmission _ => "Excessive emission in epoch"
  | supplyCapExceeded => "Supply cap exceeded"
  | burnTooSmall => "Burn amount too small"
  | invalidEmissionType => "Invalid emission type"

/-- The error is given as the text that it displays. -/
def BleepEconomics.verifyEpochInvariants (sha256 : Bytes → Hash32) (self : BleepEconomics) : Except String Unit := do
  let state := self.tokenomics.supplyState
  state.verify.mapError fun e => s!"Tokenomics error: {e.display}"
  (state.verifyHash sha256).mapError fun e => s!"Tokenomics error: {e.display}"
  ensure (state.totalBurned ≤ state.totalMinted) "Supply invariant violated"
  ensure (state.circulatingSupply = saturatingSub state.totalMinted state.totalBurned) "Circulation supply mismatch"
  self.feeMarket.baseFeeParams.validate.mapError fun e => s!"Fee market error: {e.display}"

structure BleepEconomicsRuntime where
  state : BleepEconomics
  lastEpoch : U64
  epochHistory : List EpochOutput

namespace BleepEconomicsRuntime

variable (self : BleepEconomicsRuntime)

def withTokenomics (tokenomics : CanonicalTokenomicsEngine) : BleepEconomicsRuntime :=
  { self with state := { self.state with tokenomics } }

def withFeeMarket (feeMarket : FeeMarket) : BleepEconomicsRuntime :=
  { self with state := { self.state with feeMarket } }

def withValidators (validators : ValidatorIncentivesEngine) : BleepEconomicsRuntime :=
  { self with state := { self.state with validators } }

def withOracleBridge (oracleBridge : OracleBridgeEngine) : BleepEconomicsRuntime :=
  { self with state := { self.state with oracleBridge } }

end BleepEconomicsRuntime

abbrev RuntimeM := Stateful BleepEconomicsRuntime (Failure RuntimeError)

namespace BleepEconomicsRuntime

variable (sha256 : Bytes → Hash32) (sphincs : Sphincs)

def genesis : BleepEconomicsRuntime where
  state :=
    { tokenomics := .genesis sha256
      feeMarket := { FeeMarket.genesis with shardCongestion := (∅ : HashMap U32 ShardCongestion).insert 0 ⟨0, 5000, 0, 250⟩ }
      validators := .genesis
      oracleBridge := .genesis }
  lastEpoch := 0
  epochHistory := []

def updateBaseFee (epoch : U64) (averageUtilizationBps : U16) : RuntimeM U128 := fun self =>
  match self.state.feeMarket.updateBaseFee epoch averageUtilizationBps with
  | .error e => (.error (e.map .feeMarket), self)
  | .ok (fee, feeMarket) => (.ok fee, self.withFeeMarket feeMarket)

def recordShardCongestion (congestion : ShardCongestion) : RuntimeM Unit := fun self =>
  match self.state.feeMarket.recordShardCongestion congestion with
  | .error e => (.error (.error (.feeMarket e)), self)
  | .ok feeMarket => (.ok (), self.withFeeMarket feeMarket)

def submitPriceUpdate (update : PriceUpdate) : RuntimeM Unit := fun self =>
  let (result, oracleBridge) := self.state.oracleBridge.submitPriceUpdate sphincs update
  (result.mapError fun e => .error (.oracle e), self.withOracleBridge oracleBridge)

/-- An error means that there is no price. -/
def aggregatePrice (now : U64) : RuntimeM (Option U128) := fun self =>
  match self.state.oracleBridge.aggregatePrices sha256 "BLEEP/USD" now 300 with
  | .error (.panic message) => (.error (.panic message), self)
  | .error (.error _) => (.ok none, self)
  | .ok (price, oracleBridge) => (.ok (some price.medianPrice), self.withOracleBridge oracleBridge)

def rewardValidators (input : EpochInput) : RuntimeM (List RewardRecord) := fun self =>
  let (records, validators) :=
    (input.validatorMetrics.foldl .noteMetrics self.state.validators).computeEpochRewards sha256 input.epoch
  (.ok records, self.withValidators validators)

def updateTokenomics (call : CanonicalTokenomicsEngine → Except (Failure TokenomicsError) CanonicalTokenomicsEngine) :
    RuntimeM Unit := fun self =>
  match call self.state.tokenomics with
  | .error e => (.error (e.map .tokenomics), self)
  | .ok tokenomics => (.ok (), self.withTokenomics tokenomics)

/-- `let _ =`: an error is dropped, a panic is not. -/
def tryTokenomics (call : CanonicalTokenomicsEngine → Except (Failure TokenomicsError) CanonicalTokenomicsEngine) :
    RuntimeM Unit :=
  updateTokenomics fun tokenomics =>
    match call tokenomics with
    | .error (.error _) => .ok tokenomics
    | result => result

def finalizeEpoch (epoch : U64) : RuntimeM Bytes := fun self =>
  let (result, tokenomics) := self.state.tokenomics.finalizeEpoch sha256 epoch
  (result.mapError (Failure.map .tokenomics), self.withTokenomics tokenomics)

def verifyEpochInvariants : RuntimeM Unit := fun self =>
  ((self.state.verifyEpochInvariants sha256).mapError fun message => .error (.invariantViolation message), self)

/-- The part of `process_epoch` before the metrics of the validators. -/
def prepareEpoch (now : U64) (input : EpochInput) : RuntimeM (U128 × Option U128) := do
  let newBaseFee ← updateBaseFee input.epoch input.avgUtilisationBps
  recordShardCongestion
    { shardId := 0
      pendingTxns := (input.blockCount * 100).setWidth 32
      utilizationBps := input.avgUtilisationBps
      avgTxSizeBytes :=
        if 0 < input.blockCount then (input.feeRevenue / input.blockCount.setWidth 128).setWidth 32 else 0 }
  input.oracleUpdates.forM (submitPriceUpdate sphincs)
  let bleepUsdPrice ← aggregatePrice sha256 now
  return (newBaseFee, bleepUsdPrice)

/-- What the rewards of an epoch add up to. -/
def totalEmitted (records : List RewardRecord) : U128 := (records.map RewardRecord.totalReward).foldl (· + ·) 0

variable (epoch : U64)

def emitRewards (emitted : U128) (self : CanonicalTokenomicsEngine) :
    Except (Failure TokenomicsError) CanonicalTokenomicsEngine :=
  if 0 < emitted then self.recordEmission sha256 epoch .blockProposal emitted else .ok self

variable (fees : FeeDistribution)

variable (self : CanonicalTokenomicsEngine)

def burnFees :
    Except (Failure TokenomicsError) CanonicalTokenomicsEngine :=
  if 0 < fees.burned then self.recordBurn sha256 epoch .transactionFee fees.burned else .ok self

/-- The share of the validators in the fees is recorded as an emission. -/
def payValidators :
    Except (Failure TokenomicsError) CanonicalTokenomicsEngine :=
  if 0 < fees.validatorReward then self.recordEmission sha256 epoch .blockProposal fees.validatorReward else .ok self

def payTreasury :
    Except (Failure TokenomicsError) CanonicalTokenomicsEngine :=
  if 0 < fees.treasury then self.recordBurn sha256 epoch .proposalRejection 0 else .ok self

def noteEpoch (output : EpochOutput) : RuntimeM Unit := fun self =>
  let history := if 100 ≤ self.epochHistory.length then self.epochHistory.tail else self.epochHistory
  (.ok (), { self with lastEpoch := output.epoch, epochHistory := history ++ [output] })

def circulatingSupply (self : BleepEconomicsRuntime) : U128 := self.state.tokenomics.supplyState.circulatingSupply

/-- The part of `process_epoch` after the rewards. -/
def settleEpoch (input : EpochInput) (newBaseFee : U128) (bleepUsdPrice : Option U128) (records : List RewardRecord) :
    RuntimeM EpochOutput := do
  let emitted := totalEmitted records
  let fees := FeeDistribution.compute input.feeRevenue
  updateTokenomics (emitRewards sha256 input.epoch emitted)
  updateTokenomics (burnFees sha256 input.epoch fees)
  tryTokenomics (payValidators sha256 input.epoch fees)
  tryTokenomics (payTreasury sha256 input.epoch fees)
  let supplyStateHash ← finalizeEpoch sha256 input.epoch
  let circulating := (← get).circulatingSupply
  verifyEpochInvariants sha256
  let output : EpochOutput :=
    ⟨input.epoch, newBaseFee, emitted, fees.burned, circulating, records, supplyStateHash, bleepUsdPrice⟩
  noteEpoch output
  return output

def processEpoch (now : U64) (input : EpochInput) : RuntimeM EpochOutput := do
  let (newBaseFee, bleepUsdPrice) ← prepareEpoch sha256 sphincs now input
  let records ← rewardValidators sha256 input
  settleEpoch sha256 input newBaseFee bleepUsdPrice records

end BleepEconomicsRuntime

end Bleep.Economics
