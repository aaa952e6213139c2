import Bleep.Connect.CommitmentChain

namespace Bleep.Connect

open HashTable Words Results

def executorAuctionDuration : U64 := 15
def executionTimeout : U64 := 120
def intentDefaultExpiry : U64 := 300
def slashPenaltyBps : U16 := 3000

/-- The readings of the system clock in one call, in their order. -/
abbrev Clock := Nat → U64

/-- `char::is_whitespace`. -/
def isWhitespace (c : Char) : Bool :=
  let n := c.toNat
  decide (9 ≤ n ∧ n ≤ 13) || n == 0x20 || n == 0x85 || n == 0xa0 || n == 0x1680 || decide (0x2000 ≤ n ∧ n ≤ 0x200a)
    || n == 0x2028 || n == 0x2029 || n == 0x202f || n == 0x205f || n == 0x3000

/-- `trim().is_empty()`. -/
def blank (s : String) : Bool := s.toList.all isWhitespace

structure IntentPool where
  intents : HashMap Hash32 InstantIntent
  statuses : HashMap Hash32 TransferStatus

namespace IntentPool

def new : IntentPool := ⟨∅, ∅⟩

variable (self : IntentPool)

def add (sha256 : Bytes → Hash32) (ts : U64) (intent : InstantIntent) :
    Except BleepConnectError (Hash32 × IntentPool) :=
  let id := intent.calculateId sha256
  if intent.isExpired ts then .error (.intentExpired intent.expiresAt)
  else .ok (id, ⟨self.intents.insert id intent, self.statuses.insert id (.created ts)⟩)

def updateStatus (id : Hash32) (status : TransferStatus) : IntentPool :=
  { self with statuses := self.statuses.insert id status }

def remove (id : Hash32) : IntentPool := { self with intents := self.intents.erase id }

def auctionExpired (ts : U64) (id : Hash32) : Bool :=
  match self.statuses.lookup id with
  | some (.auctionOpen openedAt _) => openedAt + executorAuctionDuration ≤ ts
  | _ => false

def expiredAuctions (σ : IterOrder) (ts : U64) : List Hash32 :=
  ((σ.iter 0 self.intents).map Prod.fst).filter (self.auctionExpired ts)

end IntentPool

structure ExecutorBid where
  intentId : Hash32
  executorAddress : UniversalAddress
  executorTier : ExecutorTier
  bidRewardBps : U16
  estimatedTimeMs : U64

structure ExecutorProfile where
  address : UniversalAddress
  tier : ExecutorTier
  totalExecutions : U64
  successfulExecutions : U64
  failedExecutions : U64
  totalVolume : U128
  averageExecutionTimeMs : U64
  availableLiquidity : U128
  lastExecutionAt : U64

def ExecutorProfile.failureRateBps (self : ExecutorProfile) : U16 :=
  if self.totalExecutions = 0 then 10000
  else (Float.ofNat self.failedExecutions.toNat / Float.ofNat self.totalExecutions.toNat * 10000.0).toUInt16.toBitVec

structure ExecutorRegistry where
  profiles : HashMap String ExecutorProfile
  bonds : HashMap String U128

namespace ExecutorRegistry

variable (self : ExecutorRegistry)

def new : ExecutorRegistry := ⟨∅, ∅⟩

def register (profile : ExecutorProfile) : ExecutorRegistry :=
  { self with profiles := self.profiles.insert profile.address.display profile }

def getProfile (address : UniversalAddress) : Option ExecutorProfile := self.profiles.lookup address.display

variable (executor : String)

def lockBond (amount : U128) : ExecutorRegistry :=
  { self with bonds := self.bonds.insert executor ((self.bonds.lookup executor).getD 0 + amount) }

def releaseBond (amount : U128) : ExecutorRegistry :=
  match self.bonds.lookup executor with
  | none => self
  | some bond => { self with bonds := self.bonds.insert executor (saturatingSub bond amount) }

def slashBond (transferAmount : U128) : ExecutorRegistry :=
  self.releaseBond executor (transferAmount * slashPenaltyBps.setWidth 128 / 10000)

/-- A change of the profile under an address, if there is one. -/
def modifyProfile (address : UniversalAddress) (change : ExecutorProfile → ExecutorProfile) : ExecutorRegistry :=
  match self.profiles.lookup address.display with
  | none => self
  | some profile => { self with profiles := self.profiles.insert address.display (change profile) }

variable (executorAddr : UniversalAddress)

def recordSuccess (volume : U128) (timeMs now : U64) : ExecutorRegistry :=
  self.modifyProfile executorAddr fun p => { p with
    totalExecutions := p.totalExecutions + 1
    successfulExecutions := p.successfulExecutions + 1
    totalVolume := p.totalVolume + volume
    averageExecutionTimeMs := (p.averageExecutionTimeMs * 9 + timeMs) / 10
    lastExecutionAt := now }

def recordFailure (now : U64) : ExecutorRegistry :=
  self.modifyProfile executorAddr fun p => { p with
    totalExecutions := p.totalExecutions + 1
    failedExecutions := p.failedExecutions + 1
    lastExecutionAt := now }

def canExecute (transferValue : U128) : Bool :=
  match self.getProfile executorAddr with
  | some p => decide (transferValue ≤ p.availableLiquidity) && decide (transferValue ≤ p.tier.maxTransferValue) &&
      decide (p.failureRateBps ≤ p.tier.maxFailureRateBps)
  | none => false

end ExecutorRegistry

/-- Lower reward first, then the faster one. -/
def ExecutorBid.beats (a b : ExecutorBid) : Bool :=
  decide (a.bidRewardBps < b.bidRewardBps) ||
    decide (a.bidRewardBps = b.bidRewardBps) && decide (a.estimatedTimeMs < b.estimatedTimeMs)

structure AuctionEngine where
  bids : HashMap Hash32 (List ExecutorBid)

namespace AuctionEngine

variable (self : AuctionEngine)

def placeBid (bid : ExecutorBid) : AuctionEngine :=
  ⟨self.bids.insert bid.intentId ((self.bids.lookup bid.intentId).getD [] ++ [bid])⟩

/-- The first of the best bids. -/
def selectWinner (intentId : Hash32) : Option ExecutorBid :=
  match self.bids.lookup intentId with
  | none => none
  | some [] => none
  | some (bid :: bids) => some (bids.foldl (fun best next => if next.beats best then next else best) bid)

def clear (intentId : Hash32) : AuctionEngine := ⟨self.bids.erase intentId⟩

end AuctionEngine

structure ExecutionProof where
  intentId : Hash32
  executor : UniversalAddress
  destTxHash : String
  destAmountDelivered : U128
  completedAt : U64
  executionTimeMs : U64
  executorSignature : Bytes
  deriving DecidableEq

/-- No function of the layer calls it. -/
def ExecutionProof.verifySignature (hashes : Hashes) (sphincs : Sphincs) (self : ExecutionProof) (executorPk : Bytes) :
    Bool :=
  classicalVerify sphincs executorPk
    (hashes.sha256 (self.intentId.toList ++ utf8 self.destTxHash ++ be128 self.destAmountDelivered)).toList
    self.executorSignature

structure VerifiedEscrow where
  amount : U128
  recipient : String
  deriving DecidableEq

/-- What the verifier answers, which may depend on when it is asked. -/
abbrev EscrowVerifier := Nat → InstantIntent → Except String VerifiedEscrow

structure Layer4Instant where
  intentPool : IntentPool
  executorRegistry : ExecutorRegistry
  auctionEngine : AuctionEngine
  commitmentChain : CommitmentChain
  escrowVerifier : Option EscrowVerifier
  executionStarts : HashMap Hash32 U64

namespace Layer4Instant

variable (sha256 : Bytes → Hash32) (self : Layer4Instant)

def newWithEscrowVerifier (commitmentChain : CommitmentChain) (escrowVerifier : Option EscrowVerifier) :
    Layer4Instant :=
  ⟨.new, .new, ⟨∅⟩, commitmentChain, escrowVerifier, ∅⟩

def withExpiry (now : U64) (intent : InstantIntent) : InstantIntent :=
  if intent.expiresAt = 0 then { intent with expiresAt := now + intentDefaultExpiry } else intent

/-- The part of `submit_intent` that asks the verifier. -/
def checkEscrow (moment : Nat) (intent : InstantIntent) : Except BleepConnectError Unit :=
  if blank intent.escrowTxHash || intent.escrowProof.isEmpty then
    .error (.internalError "Missing escrow transaction hash or proof")
  else
    match self.escrowVerifier with
    | none => .error (.internalError "Escrow verification is not configured")
    | some verifier =>
      match verifier moment intent with
      | .error e => .error (.internalError s!"Escrow verification failed: {e}")
      | .ok escrow =>
        if escrow.amount < intent.sourceAmount ∨ escrow.recipient ≠ intent.recipient.address then
          .error (.internalError "Escrow does not cover the intent amount or recipient")
        else .ok ()

variable (clock : Clock)

/-- The status is set whatever it was before, and stays when the anchoring
fails. -/
def submitIntent (moment : Nat) (disk : Disk) (intent : InstantIntent) :
    Except BleepConnectError Hash32 × Layer4Instant :=
  let intent := withExpiry (clock 0) intent
  match self.checkEscrow moment intent >>= fun _ => self.intentPool.add sha256 (clock 1) intent with
  | .error e => (.error e, self)
  | .ok (id, pool) =>
    let pool := pool.updateStatus id (.escrowLocked intent.escrowTxHash (clock 2))
    let pool := pool.updateStatus id (.auctionOpen (clock 3) 0)
    let anchored := self.commitmentChain.submitCommitment disk
      ⟨sha256 (utf8 "L4-INTENT" ++ id.toList), .instantTransfer, sha256 id.toList, 4, clock 4⟩
    (anchored.1.map fun _ => id, { self with intentPool := pool, commitmentChain := anchored.2 })

/-- The bid count, which is kept only while the auction is open. -/
def countBid (id : Hash32) : Layer4Instant :=
  match self.intentPool.statuses.lookup id with
  | some (.auctionOpen openedAt bidsReceived) =>
    { self with intentPool := self.intentPool.updateStatus id (.auctionOpen openedAt (bidsReceived + 1)) }
  | _ => self

def placeBid (bid : ExecutorBid) : Except BleepConnectError Unit × Layer4Instant :=
  match self.intentPool.intents.lookup bid.intentId with
  | none => (.error (.internalError "Intent not found"), self)
  | some intent =>
    if intent.maxSolverRewardBps < bid.bidRewardBps then
      (.error (.internalError "Bid reward exceeds user maximum"), self)
    else if !self.executorRegistry.canExecute bid.executorAddress intent.sourceAmount then
      (.error (.executorNotQualified "Insufficient liquidity or tier for this transfer"), self)
    else
      (.ok (), { self with auctionEngine := self.auctionEngine.placeBid bid }.countBid (intent.calculateId sha256))

/-- The auction of an intent in the pool may be closed in any status. -/
def closeAuction (intentId : Hash32) : Except BleepConnectError Unit × Layer4Instant :=
  match self.intentPool.intents.lookup intentId with
  | none => (.error (.internalError "Intent not found"), self)
  | some intent =>
    match self.auctionEngine.selectWinner intentId with
    | none => (.error (.internalError "No bids received in auction window"), self)
    | some winner =>
      let bond := intent.calculateMinExecutorBond winner.executorTier
      let pool := self.intentPool.updateStatus intentId
        (.bidAccepted winner.executorAddress ("bond-" ++ Hex.encode intentId.toList) (clock 0))
      (.ok (), { self with
        executorRegistry := self.executorRegistry.lockBond winner.executorAddress.display bond
        intentPool := pool.updateStatus intentId (.executionStarted winner.executorAddress (clock 1))
        executionStarts := self.executionStarts.insert intentId (clock 2)
        auctionEngine := self.auctionEngine.clear intentId })

/-- A missing start counts as 0. -/
def timedOut (now : U64) (intentId : Hash32) : Bool :=
  (self.executionStarts.lookup intentId).getD 0 + executionTimeout < now

/-- The branch of a late proof: whoever the proof names is slashed. -/
def failExecution (proof : ExecutionProof) (intent : InstantIntent) : Layer4Instant :=
  { self with
    executorRegistry := (self.executorRegistry.slashBond proof.executor.display intent.sourceAmount).recordFailure
      proof.executor (clock 1)
    intentPool := self.intentPool.updateStatus proof.intentId (.failed .executorTimeout (clock 2)) }

/-- The branch of a proof in time, up to the anchoring. -/
def completeExecution (proof : ExecutionProof) (intent : InstantIntent) : Layer4Instant :=
  let tier := ((self.executorRegistry.getProfile proof.executor).map ExecutorProfile.tier).getD .standard
  { self with
    executorRegistry := (self.executorRegistry.releaseBond proof.executor.display
      (intent.calculateMinExecutorBond tier)).recordSuccess proof.executor intent.sourceAmount proof.executionTimeMs
        (clock 1)
    intentPool := self.intentPool.updateStatus proof.intentId
      (.executionCompleted proof.executor proof.destTxHash proof.completedAt) }

/-- Neither the status of the intent nor the executor nor the signature of the
proof is checked. -/
def submitExecutionProof (disk : Disk) (proof : ExecutionProof) :
    Except BleepConnectError Unit × Layer4Instant :=
  match self.intentPool.intents.lookup proof.intentId with
  | none => (.error (.internalError "Intent not found"), self)
  | some intent =>
    if proof.destAmountDelivered < intent.minDestAmount then
      (.error (.internalError
        s!"Delivered {proof.destAmountDelivered.toNat} < minimum {intent.minDestAmount.toNat}"), self)
    else if self.timedOut (clock 0) proof.intentId then
      (.error (.internalError "Execution timeout — executor slashed"), self.failExecution clock proof intent)
    else
      let done := self.completeExecution clock proof intent
      let anchored := done.commitmentChain.submitCommitment disk
        ⟨sha256 (utf8 "L4-EXEC" ++ proof.intentId.toList), .instantTransfer,
          sha256 (proof.intentId.toList ++ utf8 proof.destTxHash), 4, clock 2⟩
      match anchored.1 with
      | .error e => (.error e, { done with commitmentChain := anchored.2 })
      | .ok () => (.ok (), { done with
          commitmentChain := anchored.2
          intentPool := done.intentPool.remove proof.intentId
          executionStarts := done.executionStarts.erase proof.intentId })

def registerExecutor (profile : ExecutorProfile) : Layer4Instant :=
  { self with executorRegistry := self.executorRegistry.register profile }

/-- The sweeper's attempt to close one auction. -/
def sweepAuction (clocks : Hash32 → Clock) (id : Hash32) : Layer4Instant :=
  let outcome := self.closeAuction (clocks id) id
  match outcome.1 with
  | .ok () => outcome.2
  | .error _ => { outcome.2 with
      intentPool := outcome.2.intentPool.updateStatus id (.failed (.other "No executors available") (clocks id 3)) }

def timedOutStarts (σ : IterOrder) (ts : U64) : List Hash32 :=
  ((σ.iter 1 self.executionStarts).filter fun entry => decide (entry.2 + executionTimeout < ts)).map Prod.fst

def sweepTimeout (ts : U64) (id : Hash32) : Layer4Instant :=
  match self.intentPool.intents.lookup id with
  | none => self
  | some _ => { self with
      intentPool := self.intentPool.updateStatus id (.failed .executorTimeout ts)
      executionStarts := self.executionStarts.erase id }

/-- One round of `run_auction_sweeper`. -/
def sweep (σ : IterOrder) (clock : Clock) (clocks : Hash32 → Clock) : Layer4Instant :=
  let closed := (self.intentPool.expiredAuctions σ (clock 0)).foldl (fun layer id => layer.sweepAuction clocks id) self
  (closed.timedOutStarts σ (clock 1)).foldl (fun layer id => layer.sweepTimeout (clock 1) id) closed

end Layer4Instant

inductive InstantCall
  | registerExecutor (profile : ExecutorProfile)
  | submitIntent (clock : Clock) (moment : Nat) (disk : Disk) (intent : InstantIntent)
  | placeBid (bid : ExecutorBid)
  | closeAuction (clock : Clock) (intentId : Hash32)
  | submitExecutionProof (clock : Clock) (disk : Disk) (proof : ExecutionProof)
  | sweep (σ : IterOrder) (clock : Clock) (clocks : Hash32 → Clock)

def InstantCall.apply (sha256 : Bytes → Hash32) (self : Layer4Instant) : InstantCall → Layer4Instant
  | registerExecutor profile => self.registerExecutor profile
  | submitIntent clock moment disk intent => (self.submitIntent sha256 clock moment disk intent).2
  | placeBid bid => (self.placeBid sha256 bid).2
  | closeAuction clock intentId => (self.closeAuction clock intentId).2
  | submitExecutionProof clock disk proof => (self.submitExecutionProof sha256 clock disk proof).2
  | sweep σ clock clocks => self.sweep σ clock clocks

end Bleep.Connect
