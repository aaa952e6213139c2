import Bleep.Bytes
import Bleep.Library.HashTable
import Bleep.Library.Hex
import Bleep.Library.Results

namespace Bleep.LiveGovernance

open HashTable Words Results

inductive GovernableParam
  | blockIntervalMs (ms : U64)
  | maxTxsPerBlock (n : U32)
  | maxInflationBps (bps : U32)
  | feeBurnBps (bps : U32)
  | downtimePenaltyPerBlock (penalty : Float)
  | equivocationPenaltyBps (bps : U32)
  | minValidatorStake (stake : U128)
  | oracleQuorum (q : BitVec 8)
  | faucetDripAmount (amount : U64)
  | prometheusScrapeSecs (secs : U32)

namespace GovernableParam

def atLeast {w : Nat} (bound value : BitVec w) (message : String) : Except String Unit :=
  ensure (bound ≤ value) message

def atMost {w : Nat} (bound value : BitVec w) (message : String) : Except String Unit :=
  ensure (value ≤ bound) message

def validate : GovernableParam → Except String Unit
  | blockIntervalMs ms => do
    atLeast 1000 ms "block interval must be >= 1,000 ms (constitutional)"
    atMost 60000 ms "block interval must be <= 60,000 ms"
  | maxInflationBps bps => atMost 500 bps "max inflation must be <= 500 bps (5%) (constitutional)"
  | feeBurnBps bps => atMost 10000 bps "fee burn must be <= 10,000 bps"
  | equivocationPenaltyBps bps => atMost 5000 bps "equivocation penalty must be <= 5,000 bps (50%)"
  | oracleQuorum q => do
    atLeast 2 q "oracle quorum must be >= 2"
    atMost 5 q "oracle quorum must be <= 5"
  | maxTxsPerBlock n => do
    atLeast 1 n "max txs per block must be >= 1"
    atMost 65536 n "max txs per block must be <= 65,536"
  | _ => .ok ()

def name : GovernableParam → String
  | blockIntervalMs _ => "block_interval_ms"
  | maxTxsPerBlock _ => "max_txs_per_block"
  | maxInflationBps _ => "max_inflation_bps"
  | feeBurnBps _ => "fee_burn_bps"
  | downtimePenaltyPerBlock _ => "downtime_penalty_per_block"
  | equivocationPenaltyBps _ => "equivocation_penalty_bps"
  | minValidatorStake _ => "min_validator_stake"
  | oracleQuorum _ => "oracle_quorum"
  | faucetDripAmount _ => "faucet_drip_amount"
  | prometheusScrapeSecs _ => "prometheus_scrape_secs"

end GovernableParam

inductive ProposalState
  | active
  | passed
  | rejected
  | vetoed
  | executed
deriving DecidableEq, Repr

inductive Vote
  | yes
  | no
  | abstain
  | veto
deriving DecidableEq, Repr

structure Proposal where
  id : U64
  paramChange : Option GovernableParam
  state : ProposalState
  yesVotes : U128
  noVotes : U128
  abstainVotes : U128
  vetoVotes : U128
  voters : HashMap String Vote
  votingEndBlock : U64
  executionTx : Option String

structure GovernanceConfig where
  votingPeriodBlocks : U64
  quorumBps : U32
  thresholdBps : U32
  vetoThresholdBps : U32
  minDeposit : U128
  totalStaked : U128

/-- 10% participation, more than 66.67% yes, and no more than 33.33% veto. -/
def GovernanceConfig.default : GovernanceConfig where
  votingPeriodBlocks := 1000
  quorumBps := 1000
  thresholdBps := 6667
  vetoThresholdBps := 3333
  minDeposit := 1000000000000
  totalStaked := 70000000000000000

inductive GovernanceError
  | proposalNotFound (id : U64)
  | insufficientDeposit (required provided : U128)
  | constitutionalViolation (message : String)
  | votingClosed
  | alreadyVoted
  | notPassed
deriving DecidableEq, Repr

structure ExecutionResult where
  proposalId : U64
  txHash : String
  paramApplied : Option String
  block : U64

namespace Proposal

def new (id : U64) (paramChange : Option GovernableParam) (votingEndBlock : U64) : Proposal :=
  ⟨id, paramChange, .active, 0, 0, 0, 0, ∅, votingEndBlock, none⟩

/-- A veto counts as a vote against, too. The sums wrap. -/
def addVote (self : Proposal) (voter : String) (vote : Vote) (votingPower : U128) : Proposal :=
  let counted :=
    match vote with
    | .yes => { self with yesVotes := self.yesVotes + votingPower }
    | .no => { self with noVotes := self.noVotes + votingPower }
    | .abstain => { self with abstainVotes := self.abstainVotes + votingPower }
    | .veto => { self with vetoVotes := self.vetoVotes + votingPower, noVotes := self.noVotes + votingPower }
  { counted with voters := self.voters.insert voter vote }

def totalVotes (self : Proposal) : U128 := self.yesVotes + self.noVotes + self.abstainVotes

/-- A share in basis points, rounded down. The product wraps. -/
def share (amount : U128) (bps : U32) : U128 := amount * bps.setWidth 128 / 10000

/-- The state a tally leads to. -/
def verdict (config : GovernanceConfig) (self : Proposal) : ProposalState :=
  if self.totalVotes < share config.totalStaked config.quorumBps then .rejected
  else if share self.totalVotes config.vetoThresholdBps < self.vetoVotes then .vetoed
  else if share self.totalVotes config.thresholdBps < self.yesVotes then .passed
  else .rejected

/-- `format!("0x{:064x}", ..)` of the id and the block. -/
def executionHash (proposalId currentBlock : U64) : String :=
  "0x" ++ Hex.encode (beBytes 32 ((proposalId * 0x9e3779b97f4a7c15) ^^^ (currentBlock <<< 32)).toNat)

end Proposal

structure LiveGovernanceEngine where
  config : GovernanceConfig
  proposals : HashMap U64 Proposal
  nextId : U64
  currentBlock : U64

namespace LiveGovernanceEngine

def new (config : GovernanceConfig) (currentBlock : U64) : LiveGovernanceEngine := ⟨config, ∅, 1, currentBlock⟩

def checkParam : Option GovernableParam → Except GovernanceError Unit
  | some param => param.validate.mapError .constitutionalViolation
  | none => .ok ()

variable (self : LiveGovernanceEngine)

def submit (paramChange : Option GovernableParam) (deposit : U128) :
    Except GovernanceError (U64 × LiveGovernanceEngine) := do
  ensure (self.config.minDeposit ≤ deposit) (.insufficientDeposit self.config.minDeposit deposit)
  checkParam paramChange
  let proposal := Proposal.new self.nextId paramChange (self.currentBlock + self.config.votingPeriodBlocks)
  return (self.nextId, { self with proposals := self.proposals.insert self.nextId proposal, nextId := self.nextId + 1 })

def vote (self : LiveGovernanceEngine) (proposalId : U64) (voter : String) (vote : Vote) (votingPower : U128) :
    Except GovernanceError LiveGovernanceEngine := do
  let proposal ← okOr (self.proposals.lookup proposalId) (.proposalNotFound proposalId)
  ensure (proposal.state = .active) .votingClosed
  ensure (self.currentBlock ≤ proposal.votingEndBlock) .votingClosed
  ensure (voter ∉ proposal.voters) .alreadyVoted
  return { self with proposals := self.proposals.insert proposalId (proposal.addVote voter vote votingPower) }

/-- Nothing here reads the current block. -/
def tally (proposalId : U64) :
    Except GovernanceError (ProposalState × LiveGovernanceEngine) := do
  let proposal ← okOr (self.proposals.lookup proposalId) (.proposalNotFound proposalId)
  if proposal.state ≠ .active then return (proposal.state, self)
  let state := proposal.verdict self.config
  return (state, { self with proposals := self.proposals.insert proposalId { proposal with state := state } })

def execute (proposalId : U64) :
    Except GovernanceError (ExecutionResult × LiveGovernanceEngine) := do
  let proposal ← okOr (self.proposals.lookup proposalId) (.proposalNotFound proposalId)
  ensure (proposal.state = .passed) .notPassed
  let txHash := Proposal.executionHash proposalId self.currentBlock
  let executed := { proposal with executionTx := some txHash, state := .executed }
  return (⟨proposalId, txHash, proposal.paramChange.map GovernableParam.name, self.currentBlock⟩,
    { self with proposals := self.proposals.insert proposalId executed })

def advanceBlock (blocks : U64) : LiveGovernanceEngine :=
  { self with currentBlock := self.currentBlock + blocks }

end LiveGovernanceEngine

inductive LiveCall
  | submit (paramChange : Option GovernableParam) (deposit : U128)
  | vote (proposalId : U64) (voter : String) (vote : Vote) (votingPower : U128)
  | tally (proposalId : U64)
  | execute (proposalId : U64)
  | advanceBlock (blocks : U64)

/-- A call that fails leaves the engine as it is. -/
def LiveCall.apply (self : LiveGovernanceEngine) : LiveCall → LiveGovernanceEngine
  | submit paramChange deposit => ((self.submit paramChange deposit).toOption.map Prod.snd).getD self
  | vote proposalId voter v votingPower => (self.vote proposalId voter v votingPower).toOption.getD self
  | tally proposalId => ((self.tally proposalId).toOption.map Prod.snd).getD self
  | execute proposalId => ((self.execute proposalId).toOption.map Prod.snd).getD self
  | advanceBlock blocks => self.advanceBlock blocks

end Bleep.LiveGovernance
