import Bleep.CrossShard.Transaction

namespace Bleep

open HashTable OrderedStore

inductive CommitPhase
  | preparingPhase
  | readyToCommit
  | committingPhase
  | aborting
  | terminal
  deriving DecidableEq

def CommitPhase.debug : CommitPhase → String
  | preparingPhase => "PreparingPhase"
  | readyToCommit => "ReadyToCommit"
  | committingPhase => "CommittingPhase"
  | aborting => "Aborting"
  | terminal => "Terminal"

inductive CommitDecision
  | awaitingPrepareVotes
  | commitTransaction
  | abortTransaction (reason : String)

structure CoordinatorStateSnapshot where
  transactionId : TransactionId
  phase : CommitPhase
  status : CrossShardTransactionStatus
  prepareVotes : HashMap ShardId PrepareVote
  receipts : HashMap ShardId CrossShardReceipt
  abortReason : Option String

structure TwoPhaseCommitCoordinator where
  transaction : CrossShardTransaction
  coordinatorShard : ShardId
  lifecycle : CrossShardTransactionLifecycle
  phase : CommitPhase
  startHeight : U64
  timeoutHeight : U64

namespace TwoPhaseCommitCoordinator

variable (encode : VoteEncoder) (sphincs : AttachedSphincs)

def new (transaction : CrossShardTransaction) (coordinatorShard : ShardId) (startHeight timeoutHeight : U64) :
    TwoPhaseCommitCoordinator :=
  ⟨transaction, coordinatorShard, .new transaction.id, .preparingPhase, startHeight, timeoutHeight⟩

variable (self : TwoPhaseCommitCoordinator)

def evaluatePrepareResponses :
    Except String CommitDecision × TwoPhaseCommitCoordinator :=
  if !self.transaction.involvedShards.all fun shard => (self.lifecycle.prepareVotes.lookup shard).isSome then
    (.ok .awaitingPrepareVotes, self)
  else if self.lifecycle.anyShardRejected then
    (.ok (.abortTransaction "At least one shard rejected prepare"), { self with phase := .aborting })
  else (.ok .commitTransaction, { self with phase := .readyToCommit })

/-- The signature is checked against no key at all. -/
def receivePrepareVote (vote : PrepareVote) :
    Except String CommitDecision × TwoPhaseCommitCoordinator :=
  if vote.transactionId ≠ self.transaction.id then (.error "Vote is for different transaction", self)
  else if !vote.verifySignature encode sphincs [] then (.error "Vote signature invalid", self)
  else evaluatePrepareResponses { self with lifecycle := self.lifecycle.recordPrepareVote vote.shardId vote }

def executeCommit : Except String Unit × TwoPhaseCommitCoordinator :=
  if self.phase ≠ .readyToCommit then (.error s!"Cannot commit in phase {self.phase.debug}", self)
  else (.ok (), { self with phase := .committingPhase })

def receiptPresent (receipts : HashMap ShardId CrossShardReceipt) (shard : ShardId) : Except String Unit :=
  if (receipts.lookup shard).isSome then .ok () else .error s!"Missing receipt from shard {ShardId.debug shard}"

def receiptSuccessful (entry : ShardId × CrossShardReceipt) : Except String Unit := do
  entry.2.verify
  if entry.2.status ≠ .committed then
    .error s!"Shard {ShardId.debug entry.1} has status {entry.2.status.debug} instead of Committed"

/-- The phase is not looked at. -/
def finalizeCommit (receipts : HashMap ShardId CrossShardReceipt) :
    Except String Unit × TwoPhaseCommitCoordinator :=
  match self.transaction.involvedShards.forM (receiptPresent receipts) with
  | .error text => (.error text, self)
  | .ok () =>
    match (ascending (· ≤ ·) receipts).forM receiptSuccessful with
    | .error text => (.error text, self)
    | .ok () => (.ok (), { self with
        lifecycle := { self.lifecycle with receipts := receipts, status := .committed }
        phase := .terminal })

def executeAbort (reason : String) : TwoPhaseCommitCoordinator :=
  { self with
    phase := .aborting
    lifecycle := { self.lifecycle with status := .abortedPrepare, abortReason := some reason } }

def isTerminal : Bool :=
  self.phase = .terminal || self.lifecycle.status = .abortedPrepare || self.lifecycle.status = .abortedTimeout

def getStateSnapshot : CoordinatorStateSnapshot :=
  ⟨self.transaction.id, self.phase, self.lifecycle.status, self.lifecycle.prepareVotes, self.lifecycle.receipts,
    self.lifecycle.abortReason⟩

end TwoPhaseCommitCoordinator

structure CoordinatorManager where
  coordinators : HashMap TransactionId TwoPhaseCommitCoordinator
  terminalTransactions : HashMap TransactionId CoordinatorStateSnapshot
  currentHeight : U64

namespace CoordinatorManager

open TwoPhaseCommitCoordinator

def new : CoordinatorManager := ⟨∅, ∅, 0⟩

variable (self : CoordinatorManager)

/-- The archive is not looked at. -/
def registerTransaction (transaction : CrossShardTransaction) (timeoutHeight : U64) :
    Except String ShardId × CoordinatorManager :=
  if (self.coordinators.lookup transaction.id).isSome then (.error "Transaction already registered", self)
  else
    match transaction.getCoordinatorShard with
    | .error text => (.error text, self)
    | .ok coordinatorShard => (.ok coordinatorShard, { self with
        coordinators := self.coordinators.insert transaction.id
          (.new transaction coordinatorShard self.currentHeight timeoutHeight) })

/-- An operation on a coordinator found in the table. -/
def onCoordinator {α : Type} (self : CoordinatorManager) (transactionId : TransactionId)
    (operation : TwoPhaseCommitCoordinator → Except String α × TwoPhaseCommitCoordinator) :
    Except String α × CoordinatorManager :=
  match self.coordinators.lookup transactionId with
  | none => (.error "Transaction not found", self)
  | some coordinator =>
    ((operation coordinator).1,
      { self with coordinators := self.coordinators.insert transactionId (operation coordinator).2 })

def processPrepareVote (encode : VoteEncoder) (sphincs : AttachedSphincs) (self : CoordinatorManager)
    (transactionId : TransactionId) (vote : PrepareVote) : Except String CommitDecision × CoordinatorManager :=
  self.onCoordinator transactionId fun coordinator => coordinator.receivePrepareVote encode sphincs vote

/-- The operations that go through `get_coordinator_mut`. -/
def executeCommit (self : CoordinatorManager) (transactionId : TransactionId) :
    Except String Unit × CoordinatorManager :=
  self.onCoordinator transactionId TwoPhaseCommitCoordinator.executeCommit

def finalizeCommit (self : CoordinatorManager) (transactionId : TransactionId)
    (receipts : HashMap ShardId CrossShardReceipt) : Except String Unit × CoordinatorManager :=
  self.onCoordinator transactionId fun coordinator => coordinator.finalizeCommit receipts

def executeAbort (self : CoordinatorManager) (transactionId : TransactionId) (reason : String) :
    Except String Unit × CoordinatorManager :=
  self.onCoordinator transactionId fun coordinator => (.ok (), coordinator.executeAbort reason)

/-- The coordinators in the order of their transaction ids. -/
def iterCoordinators : List (TransactionId × TwoPhaseCommitCoordinator) :=
  ascending (fun a b => le a.toList b.toList) self.coordinators

/-- Moves coordinators to the archive, closing each before its snapshot. -/
def archive (close : TwoPhaseCommitCoordinator → TwoPhaseCommitCoordinator) (self : CoordinatorManager)
    (ids : List TransactionId) : CoordinatorManager :=
  ids.foldl (fun self id =>
    match self.coordinators.lookup id with
    | none => self
    | some coordinator => { self with
        coordinators := self.coordinators.erase id
        terminalTransactions := self.terminalTransactions.insert id (close coordinator).getStateSnapshot }) self

def timedOut : List TransactionId :=
  (self.iterCoordinators.filter fun entry =>
    entry.2.timeoutHeight ≤ self.currentHeight && !entry.2.isTerminal).map Prod.fst

def finished : List TransactionId :=
  (self.iterCoordinators.filter fun entry => entry.2.isTerminal).map Prod.fst

def abortTimedOut : CoordinatorManager :=
  self.archive (fun coordinator => coordinator.executeAbort "Timeout") self.timedOut

def archiveTerminal : CoordinatorManager := self.archive id self.finished

def advanceBlock (newHeight : U64) : CoordinatorManager :=
  { self with currentHeight := newHeight }.abortTimedOut.archiveTerminal

end CoordinatorManager

inductive CoordinatorCall
  | registerTransaction (transaction : CrossShardTransaction) (timeoutHeight : U64)
  | processPrepareVote (transactionId : TransactionId) (vote : PrepareVote)
  | executeCommit (transactionId : TransactionId)
  | finalizeCommit (transactionId : TransactionId) (receipts : HashMap ShardId CrossShardReceipt)
  | executeAbort (transactionId : TransactionId) (reason : String)
  | advanceBlock (newHeight : U64)

section Runs

variable (encode : VoteEncoder) (sphincs : AttachedSphincs)

def CoordinatorCall.apply (self : CoordinatorManager) : CoordinatorCall → CoordinatorManager
  | registerTransaction transaction timeoutHeight => (self.registerTransaction transaction timeoutHeight).2
  | processPrepareVote transactionId vote => (self.processPrepareVote encode sphincs transactionId vote).2
  | executeCommit transactionId => (self.executeCommit transactionId).2
  | finalizeCommit transactionId receipts => (self.finalizeCommit transactionId receipts).2
  | executeAbort transactionId reason => (self.executeAbort transactionId reason).2
  | advanceBlock newHeight => self.advanceBlock newHeight

def CoordinatorManager.run (self : CoordinatorManager) (calls : List CoordinatorCall) : CoordinatorManager :=
  calls.foldl (CoordinatorCall.apply encode sphincs) self

end Runs

end Bleep
