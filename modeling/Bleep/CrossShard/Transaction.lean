import Bleep.CrossShard.Locking

namespace Bleep

open HashTable OrderedStore

abbrev EpochId := U64

/-- `{:?}` of a shard id. -/
def ShardId.debug (shard : ShardId) : String := s!"ShardId({shard.toNat})"

def TransactionId.compute (sha256 : Bytes → Hash32) (content : Bytes) (nonce : U64) : TransactionId :=
  sha256 (content ++ le64 nonce)

structure ShardExecutionPlan where
  orderedShards : List ShardId
  shardWrites : HashMap ShardId (List Bytes)
  shardReads : HashMap ShardId (List Bytes)
  planHash : String

namespace ShardExecutionPlan

def new (sha256 : Bytes → Hash32) (shards : List ShardId) : ShardExecutionPlan :=
  let orderedShards := shards.insertionSort (· ≤ ·)
  ⟨orderedShards, ∅, ∅, Hex.encode (sha256 (orderedShards.flatMap le64)).toList⟩

/-- Two neighbours stand in strictly increasing order. -/
def increasing : List ShardId → Bool
  | first :: second :: rest => first < second && increasing (second :: rest)
  | _ => true

def accessed (plan : ShardExecutionPlan) (access : String) (keys : HashMap ShardId (List Bytes)) : Except String Unit :=
  (ascending (· ≤ ·) keys).forM fun entry =>
    if entry.1 ∈ plan.orderedShards then .ok () else .error s!"Shard {ShardId.debug entry.1} has {access} but not in plan"

def verify (plan : ShardExecutionPlan) : Except String Unit := do
  if plan.orderedShards = [] then .error "Execution plan must include at least one shard"
  if !increasing plan.orderedShards then .error "Shard ordering is not strictly increasing"
  plan.accessed "writes" plan.shardWrites
  plan.accessed "reads" plan.shardReads

end ShardExecutionPlan

inductive CrossShardTransactionStatus
  | pending
  | preparing
  | prepared
  | committing
  | committed
  | abortedPrepare
  | abortedTimeout
  | abortedEpochBoundary
  deriving DecidableEq

def CrossShardTransactionStatus.debug : CrossShardTransactionStatus → String
  | pending => "Pending"
  | preparing => "Preparing"
  | prepared => "Prepared"
  | committing => "Committing"
  | committed => "Committed"
  | abortedPrepare => "AbortedPrepare"
  | abortedTimeout => "AbortedTimeout"
  | abortedEpochBoundary => "AbortedEpochBoundary"

/-- The involved shards are kept in ascending order. -/
structure CrossShardTransaction where
  id : TransactionId
  payload : Bytes
  involvedShards : List ShardId
  executionPlan : ShardExecutionPlan
  timeoutEpoch : EpochId
  nonce : U64
  signature : Bytes
  status : CrossShardTransactionStatus

namespace CrossShardTransaction

def new (sha256 : Bytes → Hash32) (payload : Bytes) (involvedShards : List ShardId) (timeoutEpoch : EpochId)
    (nonce : U64) : Except String CrossShardTransaction := do
  if involvedShards = [] then .error "Transaction must involve at least one shard"
  let executionPlan := ShardExecutionPlan.new sha256 involvedShards
  executionPlan.verify
  return ⟨.compute sha256 payload nonce, payload, involvedShards, executionPlan, timeoutEpoch, nonce, [], .pending⟩

/-- Indexing an empty plan is a panic. -/
def getCoordinatorShard (transaction : CrossShardTransaction) : Except String ShardId :=
  match transaction.executionPlan.orderedShards with
  | [] => .error "index out of bounds: the len is 0 but the index is 0"
  | first :: _ => .ok first

end CrossShardTransaction

structure CrossShardReceipt where
  transactionId : TransactionId
  shardId : ShardId
  blockHeight : U64
  status : CrossShardTransactionStatus
  stateRootAfter : String
  merkleProof : Bytes

def CrossShardReceipt.verify (receipt : CrossShardReceipt) : Except String Unit :=
  if receipt.status = .pending ∨ receipt.status = .preparing then
    .error "Receipt has invalid status for finalization"
  else .ok ()

structure PrepareVote where
  transactionId : TransactionId
  shardId : ShardId
  canCommit : Bool
  lockId : Option StateLockId
  rejectionReason : Option String
  signature : Bytes
  voteHeight : U64

/-- The signatures of `sphincs` with the message attached. -/
structure AttachedSphincs where
  publicKey : Bytes → Except String Unit
  secretKey : Bytes → Except String Unit
  signedMessage : Bytes → Except String Unit
  sign : (message secretKey : Bytes) → Bytes
  opens : (signedMessage publicKey : Bytes) → Bool

/-- `serde_json::to_vec` on the tuple that a prepare vote signs. -/
abbrev VoteEncoder :=
  Bytes × TransactionId × ShardId × Bool × Option StateLockId × Option String × U64 → Except String Bytes

namespace PrepareVote

variable (encode : VoteEncoder) (sphincs : AttachedSphincs)

def signingBytes (vote : PrepareVote) : Except String Bytes :=
  match encode (utf8 "bleep-prepare-vote-v1", vote.transactionId, vote.shardId, vote.canCommit, vote.lockId,
    vote.rejectionReason, vote.voteHeight) with
  | .ok bytes => .ok bytes
  | .error e => .error s!"failed to serialize prepare vote: {e}"

def verifySignature (vote : PrepareVote) (shardPublicKeys : List Bytes) : Bool :=
  match vote.signingBytes encode with
  | .error _ => false
  | .ok message =>
    let signedBytes := vote.signature ++ message
    match sphincs.signedMessage signedBytes with
    | .error _ => false
    | .ok () => shardPublicKeys.any fun publicKey =>
        match sphincs.publicKey publicKey with
        | .error _ => false
        | .ok () => sphincs.opens signedBytes publicKey

def sign (vote : PrepareVote) (secretKey : Bytes) : Except String PrepareVote :=
  match sphincs.secretKey secretKey with
  | .error e => .error s!"invalid SPHINCS+ secret key: {e}"
  | .ok () => do
    let message ← vote.signingBytes encode
    let signed := sphincs.sign message secretKey
    if signed.length < message.length then .error "invalid SPHINCS+ signed message"
    return { vote with signature := signed.take (signed.length - message.length) }

end PrepareVote

structure CrossShardTransactionLifecycle where
  transactionId : TransactionId
  status : CrossShardTransactionStatus
  prepareVotes : HashMap ShardId PrepareVote
  receipts : HashMap ShardId CrossShardReceipt
  prepareHeight : Option U64
  commitHeight : Option U64
  abortReason : Option String

namespace CrossShardTransactionLifecycle

def new (transactionId : TransactionId) : CrossShardTransactionLifecycle :=
  ⟨transactionId, .pending, ∅, ∅, none, none, none⟩

def recordPrepareVote (lifecycle : CrossShardTransactionLifecycle) (shard : ShardId) (vote : PrepareVote) :
    CrossShardTransactionLifecycle :=
  { lifecycle with prepareVotes := lifecycle.prepareVotes.insert shard vote }

def anyShardRejected (lifecycle : CrossShardTransactionLifecycle) : Bool :=
  (pairs lifecycle.prepareVotes).any fun entry => !entry.2.canCommit

end CrossShardTransactionLifecycle

end Bleep
