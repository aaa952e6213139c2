import Bleep.Bytes
import Bleep.Library.HashTable
import Bleep.Library.Results

namespace Bleep.Governance

open HashTable Words Results

inductive ProposalState
  | draft
  | pending
  | voting
  | tallying
  | awaitingExecution
  | executing
  | executed
  | rolledBack
  | rejected
  | expired
deriving DecidableEq, Repr

namespace ProposalState

def isTerminal : ProposalState → Bool
  | executed | rolledBack | rejected | expired => true
  | _ => false

/-- The text of `{:?}`. -/
def debug : ProposalState → String
  | draft => "Draft"
  | pending => "Pending"
  | voting => "Voting"
  | tallying => "Tallying"
  | awaitingExecution => "AwaitingExecution"
  | executing => "Executing"
  | executed => "Executed"
  | rolledBack => "RolledBack"
  | rejected => "Rejected"
  | expired => "Expired"

end ProposalState

inductive GovernanceError
  | invalidStateTransition (message : String)
  | votingNotActive
  | votingWindowExpired
  | doubleVoting (validatorId : String)
  | proposalNotFound
  | executionFailed (message : String)
  | internalError (message : String)
  | invalidProposal (message : String)
deriving DecidableEq, Repr

/-- Voting starts with `startEpoch` and ends before `endEpoch`. -/
structure VotingWindow where
  startEpoch : U64
  endEpoch : U64
deriving DecidableEq, Repr

namespace VotingWindow

def new (startEpoch endEpoch : U64) : Except String VotingWindow :=
  if endEpoch ≤ startEpoch then .error "start_epoch must be < end_epoch"
  else if endEpoch - startEpoch < 2 then .error "voting duration must be >= 2 epochs"
  else .ok ⟨startEpoch, endEpoch⟩

def isActive (self : VotingWindow) (currentEpoch : U64) : Bool :=
  self.startEpoch ≤ currentEpoch ∧ currentEpoch < self.endEpoch

def isClosed (self : VotingWindow) (currentEpoch : U64) : Bool := self.endEpoch ≤ currentEpoch

end VotingWindow

structure Vote where
  validatorId : String
  approval : Bool
  stake : U128

structure VoteTally where
  stakeApprove : U128
  stakeReject : U128
  stakeTotal : U128
  approvalPercentage : U64
  approved : Bool
  quorumMet : Bool
deriving DecidableEq, Repr

/-- The product by 100 wraps. -/
def VoteTally.compute (stakeApprove stakeReject totalNetworkStake : U128) (approvalThreshold : U64) :
    Except String VoteTally :=
  let stakeTotal := saturatingAdd stakeApprove stakeReject
  if stakeTotal = 0 then .error "No votes cast"
  else
    let quorumThreshold := totalNetworkStake / 3 + 1
    let quorumMet := decide (quorumThreshold < stakeTotal)
    let approvalPercentage := (stakeApprove * 100 / stakeTotal).setWidth 64
    let approved := quorumMet && decide (approvalThreshold ≤ approvalPercentage)
    .ok ⟨stakeApprove, stakeReject, stakeTotal, approvalPercentage, approved, quorumMet⟩

inductive GovernancePayload
  | protocolParameterChange
  | validatorSanction
  | recovery
  | upgradeAuthorization
deriving DecidableEq, Repr

namespace GovernancePayload

def payloadType : GovernancePayload → String
  | protocolParameterChange => "protocol parameter change"
  | validatorSanction => "validator sanction"
  | recovery => "recovery"
  | upgradeAuthorization => "upgrade authorization"

def notWired (self : GovernancePayload) : String :=
  self.payloadType ++ " execution not implemented: governance execution context is not wired"

/-- No execution backend is wired: every payload fails. -/
def execute (self : GovernancePayload) : Except String Unit := .error self.notWired

end GovernancePayload

structure Proposal where
  id : String
  state : ProposalState
  votingWindow : VotingWindow
  executionEpoch : U64
  approvalThreshold : U64
  votes : HashMap String Vote
  tally : Option VoteTally
  payload : GovernancePayload
  previousState : Option Proposal

namespace Proposal

def new (id : String) (votingWindow : VotingWindow) (executionEpoch approvalThreshold : U64)
    (payload : GovernancePayload) : Proposal :=
  ⟨id, .draft, votingWindow, executionEpoch, approvalThreshold, ∅, none, payload, none⟩

def submit (self : Proposal) : Except GovernanceError Proposal :=
  if self.state ≠ .draft then
    .error (.invalidStateTransition ("Cannot submit proposal in state " ++ self.state.debug))
  else .ok { self with state := .pending }

def startVoting (currentEpoch : U64) (self : Proposal) : Except GovernanceError Proposal :=
  if self.state ≠ .pending then
    .error (.invalidStateTransition ("Cannot start voting from state " ++ self.state.debug))
  else if currentEpoch < self.votingWindow.startEpoch then .error .votingNotActive
  else .ok { self with state := .voting }

def castVote (vote : Vote) (currentEpoch : U64) (self : Proposal) : Except GovernanceError Proposal :=
  if self.state ≠ .voting then .error .votingNotActive
  else if !self.votingWindow.isActive currentEpoch then .error .votingWindowExpired
  else if vote.validatorId ∈ self.votes then .error (.doubleVoting vote.validatorId)
  else .ok { self with votes := self.votes.insert vote.validatorId vote }

/-- The stakes for and against, with one vote more. -/
def countVote (sums : U128 × U128) (vote : Vote) : U128 × U128 :=
  if vote.approval then (saturatingAdd sums.1 vote.stake, sums.2) else (sums.1, saturatingAdd sums.2 vote.stake)

def countVotes (votes : List Vote) : U128 × U128 := votes.foldl countVote (0, 0)

variable (order : IterOrder)

/-- The tally of the votes as they stand. -/
def count (totalNetworkStake : U128) (self : Proposal) : Except String VoteTally :=
  let (stakeApprove, stakeReject) := countVotes ((order.iter 0 self.votes).map Prod.snd)
  VoteTally.compute stakeApprove stakeReject totalNetworkStake self.approvalThreshold

/-- The state a tally leads to. -/
def outcome (tally : VoteTally) : ProposalState :=
  if tally.approved then .awaitingExecution else if !tally.quorumMet then .expired else .rejected

def closeVoting (currentEpoch : U64) (totalNetworkStake : U128) (self : Proposal) :
    Except GovernanceError Proposal := do
  ensure (self.state = .voting) (.invalidStateTransition "Can only close voting from Voting state")
  ensure (self.votingWindow.isClosed currentEpoch) .votingNotActive
  let tally ← (self.count order totalNetworkStake).mapError .internalError
  return { self with tally := some tally, state := outcome tally }

/-- Also a failed execution changes the proposal. -/
def execute (currentEpoch : U64) (self : Proposal) : Except GovernanceError Unit × Proposal :=
  if self.state ≠ .awaitingExecution then
    (.error (.invalidStateTransition ("Cannot execute from state " ++ self.state.debug)), self)
  else if currentEpoch < self.executionEpoch then (.error (.executionFailed "Execution epoch not reached"), self)
  else
    let started := { self with previousState := some self, state := .executing }
    match self.payload.execute with
    | .ok _ => (.ok (), { started with state := .executed })
    | .error e => (.error (.executionFailed e), { started with state := .rolledBack })

/-- `let _ = proposal.step()`: an error is dropped and leaves the proposal. -/
def orSame (step : Proposal → Except GovernanceError Proposal) (self : Proposal) : Proposal :=
  match step self with
  | .ok after => after
  | .error _ => self

variable (newEpoch : U64)

/-- Transition: Pending → Voting. -/
def openVoting (self : Proposal) : Proposal :=
  if self.state = .pending ∧ self.votingWindow.startEpoch ≤ newEpoch then self.orSame (startVoting newEpoch) else self

/-- Transition: Voting → Tallying. -/
def endVoting (totalNetworkStake : U128) (self : Proposal) : Proposal :=
  if self.state = .voting ∧ self.votingWindow.endEpoch ≤ newEpoch then
    self.orSame (closeVoting order newEpoch totalNetworkStake)
  else self

/-- Transition: AwaitingExecution → Executing. Its error ends the loop. -/
def finish (self : Proposal) : Except GovernanceError Unit × Proposal :=
  if self.state = .awaitingExecution ∧ self.executionEpoch ≤ newEpoch then self.execute newEpoch else (.ok (), self)

/-- One round of `advance_epoch`. -/
def advance (totalNetworkStake : U128) (self : Proposal) :
    Except GovernanceError Unit × Proposal :=
  ((self.openVoting newEpoch).endVoting order newEpoch totalNetworkStake).finish newEpoch

end Proposal

structure GovernanceEngine where
  proposals : HashMap String Proposal
  proposalQueue : List String
  totalNetworkStake : U128

namespace GovernanceEngine

def new (totalNetworkStake : U128) : GovernanceEngine := ⟨∅, [], totalNetworkStake⟩

variable (self : GovernanceEngine)

def submitProposal (proposal : Proposal) : Except GovernanceError String × GovernanceEngine :=
  if proposal.id ∈ self.proposals then (.error (.invalidProposal "Proposal already exists"), self)
  else
    match proposal.submit with
    | .error e => (.error e, self)
    | .ok submitted =>
      (.ok submitted.id,
        { self with
          proposals := self.proposals.insert submitted.id submitted
          proposalQueue := self.proposalQueue ++ [submitted.id] })

/-- A method of the proposal under an id, which changes it in place. -/
def onProposal (id : String) (method : Proposal → Except GovernanceError Unit × Proposal) :
    Except GovernanceError Unit × GovernanceEngine :=
  match self.proposals.lookup id with
  | none => (.error .proposalNotFound, self)
  | some proposal =>
    ((method proposal).1, { self with proposals := self.proposals.insert id (method proposal).2 })

/-- A method that changes nothing when it fails. -/
def checked (method : Proposal → Except GovernanceError Proposal) (proposal : Proposal) :
    Except GovernanceError Unit × Proposal :=
  orUnchanged (fun proposal (_ : Unit) => method proposal) proposal ()

def startVoting (self : GovernanceEngine) (proposalId : String) (currentEpoch : U64) :
    Except GovernanceError Unit × GovernanceEngine :=
  self.onProposal proposalId (checked (Proposal.startVoting currentEpoch))

def castVote (self : GovernanceEngine) (proposalId : String) (vote : Vote) (currentEpoch : U64) :
    Except GovernanceError Unit × GovernanceEngine :=
  self.onProposal proposalId (checked (Proposal.castVote vote currentEpoch))

def closeVoting (self : GovernanceEngine) (order : IterOrder) (proposalId : String) (currentEpoch : U64) :
    Except GovernanceError Unit × GovernanceEngine :=
  self.onProposal proposalId (checked (Proposal.closeVoting order currentEpoch self.totalNetworkStake))

def executeProposal (proposalId : String) (currentEpoch : U64) :
    Except GovernanceError Unit × GovernanceEngine :=
  self.onProposal proposalId (Proposal.execute currentEpoch)

/-- The round of one queued id. Each proposal's ballot is a map of its own, with
an iteration order of its own. -/
def visit (orders : String → IterOrder) (newEpoch : U64) (self : GovernanceEngine) (id : String) :
    Except GovernanceError Unit × GovernanceEngine :=
  match self.proposals.lookup id with
  | none => (.ok (), self)
  | some proposal =>
    let after := proposal.advance (orders id) newEpoch self.totalNetworkStake
    (after.1, { self with proposals := self.proposals.insert id after.2 })

def advanceEpoch (orders : String → IterOrder) (newEpoch : U64) :
    Except GovernanceError Unit × GovernanceEngine :=
  inPlace (visit orders newEpoch) self.proposalQueue self

end GovernanceEngine

inductive GovernanceCall
  | submitProposal (proposal : Proposal)
  | startVoting (proposalId : String) (currentEpoch : U64)
  | castVote (proposalId : String) (vote : Vote) (currentEpoch : U64)
  | closeVoting (order : IterOrder) (proposalId : String) (currentEpoch : U64)
  | executeProposal (proposalId : String) (currentEpoch : U64)
  | advanceEpoch (orders : String → IterOrder) (newEpoch : U64)

def GovernanceCall.apply (self : GovernanceEngine) : GovernanceCall → GovernanceEngine
  | submitProposal proposal => (self.submitProposal proposal).2
  | startVoting proposalId currentEpoch => (self.startVoting proposalId currentEpoch).2
  | castVote proposalId vote currentEpoch => (self.castVote proposalId vote currentEpoch).2
  | closeVoting order proposalId currentEpoch => (self.closeVoting order proposalId currentEpoch).2
  | executeProposal proposalId currentEpoch => (self.executeProposal proposalId currentEpoch).2
  | advanceEpoch orders newEpoch => (self.advanceEpoch orders newEpoch).2

def GovernanceEngine.run (totalNetworkStake : U128) (calls : List GovernanceCall) : GovernanceEngine :=
  calls.foldl GovernanceCall.apply (.new totalNetworkStake)

end Bleep.Governance
