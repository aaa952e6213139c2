import Bleep.Pbft.Votes
import Bleep.Library.Resumption

namespace Bleep

open HashTable (IterOrder)
open Resumption (Prog)

inductive PbftMessage
  | proposal (block : Block)
  | vote (phase : PbftPhase) (blockHeight : U64) (blockHash validatorId : String) (signature : Bytes)

structure LivePbftFinality where
  localValidatorId : String
  localSecretKey : Bytes
  localPublicKey : Bytes
  /-- Whether a P2P node is attached. -/
  p2p : Bool
  engine : PbftConsensusEngine
  localPrepareSent : Finset U64
  localCommitSent : Finset U64

def LivePbftFinality.new (sphincs : Sphincs) (localValidatorId : String) (validatorKeys : List (String × Bytes))
    (localSecretKey localPublicKey : Bytes) (p2p : Bool) : Except String LivePbftFinality :=
  match validatorKeys.find? fun entry => entry.1 = localValidatorId with
  | none => .error ("Local validator " ++ localValidatorId ++ " is not in the PBFT set")
  | some (_, localKey) =>
    if localKey ≠ localPublicKey then
      .error "Local PBFT public key does not match the active validator record"
    else
      match sphincs.secretKey localSecretKey with
      | .error e => .error ("Invalid local PBFT SPHINCS+ secret key: " ++ e)
      | .ok _ =>
        match sphincs.publicKey localPublicKey with
        | .error e => .error ("Invalid local PBFT SPHINCS+ public key: " ++ e)
        | .ok _ =>
          let challenge := utf8 "BLEEP:PBFT:LOCAL-KEY-CHECK:V1"
          let signature := sphincs.detachedSign challenge localSecretKey
          if sphincs.verifyDetachedSignature signature challenge localPublicKey = false then
            .error "Local PBFT secret key does not match its public key"
          else
            match PbftConsensusEngine.newWithValidatorKeys sphincs localValidatorId validatorKeys with
            | .error e => .error ("PBFT committee initialization failed: " ++ e.display)
            | .ok engine => .ok
              { localValidatorId, localSecretKey, localPublicKey, p2p, engine
                localPrepareSent := ∅
                localCommitSent := ∅ }

def LivePbftFinality.isFinalized (node : LivePbftFinality) (height : U64) (blockHash : String) : Bool :=
  node.engine.isFinalized height && node.engine.blockHashes.lookup height = some blockHash

/-- A running node, with the votes its key has signed and the payloads it has
handed to the P2P node so far. -/
structure Replica where
  node : LivePbftFinality
  signed : List Bytes
  sent : List Bytes

/-- A call on a running node. The node is shared: each `Mutex` is held for one
action, and between two of them the other calls go on. -/
abbrev Live := Prog Replica String

namespace LivePbftFinality

/-- `self.engine.lock()` and what is done under it. -/
def lockEngine {α : Type} (body : PbftConsensusEngine → Except String (PbftConsensusEngine × α)) : Live α :=
  Prog.critical fun replica =>
    match body replica.node.engine with
    | .error e => .error e
    | .ok (engine, value) => .ok ({ replica with node.engine := engine }, value)

/-- `local_prepare_sent.lock().insert(height)`. -/
def claimPrepare (height : U64) : Live Bool :=
  Prog.critical fun replica => .ok
    ({ replica with node.localPrepareSent := insert height replica.node.localPrepareSent },
      height ∉ replica.node.localPrepareSent)

/-- `local_commit_sent.lock().insert(height)`. -/
def claimCommit (height : U64) : Live Bool :=
  Prog.critical fun replica => .ok
    ({ replica with node.localCommitSent := insert height replica.node.localCommitSent },
      height ∉ replica.node.localCommitSent)

section
variable (sha3 : Bytes → Hash32) (sphincs : Sphincs) (toVec : PbftMessage → Except String Bytes)

def broadcast (message : PbftMessage) : Live Unit :=
  Prog.critical fun replica =>
    if replica.node.p2p then
      match toVec message with
      | .error e => .error ("PBFT message serialization failed: " ++ e)
      | .ok payload => .ok ({ replica with sent := replica.sent ++ [payload] }, ())
    else .ok (replica, ())

variable (σ : IterOrder)

variable (block : Block)

def startProposal : Live Bool :=
  lockEngine fun engine =>
    match engine.blockHashes.lookup block.index with
    | some existingHash =>
      if existingHash ≠ block.computeHash sha3 then
        .error ("Conflicting PBFT proposal at height " ++ toString block.index.toNat)
      else .ok (engine, false)
    | none =>
      match engine.prePrepare sphincs sha3 σ block.index block with
      | .error e => .error e.display
      | .ok admitted => .ok (admitted, true)

/-- The local guards are cleared after the engine is unlocked, one by one. -/
def syncCommittee (validatorKeys : List (String × Bytes)) : Live Unit := do
  lockEngine fun engine =>
    match engine.setCommittee sphincs validatorKeys with
    | .error e => .error ("PBFT committee sync failed: " ++ e.display)
    | .ok replaced => .ok (replaced, ())
  Prog.critical fun replica => .ok ({ replica with node.localPrepareSent := ∅ }, ())
  Prog.critical fun replica => .ok ({ replica with node.localCommitSent := ∅ }, ())

variable (phase : PbftPhase)

variable (height : U64)

/-- The `match phase` by which a received and a local vote reach the engine. -/
def submitVote (validatorId : String) (signature : Bytes) (misplaced : String)
    (engine : PbftConsensusEngine) : Except String (PbftConsensusEngine × Unit) :=
  match phase with
  | .prepare =>
    match engine.processPrepare sphincs height validatorId signature with
    | .error e => .error e.display
    | .ok counted => .ok (counted, ())
  | .commit =>
    match engine.processCommit sphincs height validatorId signature with
    | .error e => .error e.display
    | .ok counted => .ok (counted, ())
  | .prePrepare => .error misplaced

structure LocalVote where
  blockHash : String
  validatorId : String
  signature : Bytes

/-- The recorded hash is read under the lock; signing it reads nothing else
that can change, so the two are one action. -/
def signLocalVote : Live LocalVote :=
  Prog.critical fun replica =>
    match replica.node.engine.blockHashes.lookup height with
    | none => .error ("No PBFT proposal recorded at height " ++ toString height.toNat)
    | some blockHash =>
      let message := pbftVoteMessage phase height blockHash replica.node.localValidatorId
      match sphincs.secretKey replica.node.localSecretKey with
      | .error e => .error ("Invalid local PBFT secret key: " ++ e)
      | .ok _ => .ok ({ replica with signed := replica.signed ++ [message] },
          ⟨blockHash, replica.node.localValidatorId, sphincs.detachedSign message replica.node.localSecretKey⟩)

/-- `send_local_vote` without what it does for a prepare vote only. -/
def castVote : Live Unit := do
  let vote ← signLocalVote sphincs phase height
  lockEngine (submitVote sphincs phase height vote.validatorId vote.signature "Cannot sign a PBFT pre-prepare vote")
  broadcast toVec (.vote phase height vote.blockHash vote.validatorId vote.signature)

def startLocalCommitIfPrepared : Live Unit := do
  let state ← lockEngine fun engine => .ok (engine, engine.blockState height)
  if state ≠ some .prepared then pure ()
  else do
    let first ← claimCommit height
    -- `send_local_vote(Commit)`, which does not come back here
    if first then castVote sphincs toVec .commit height else pure ()

def sendLocalVote : Live Unit :=
  if phase = .prepare then do
    let first ← claimPrepare height
    if first then do
      castVote sphincs toVec phase height
      startLocalCommitIfPrepared sphincs toVec height
    else pure ()
  else castVote sphincs toVec phase height

def checkProposer : Live Unit :=
  Prog.critical fun replica =>
    if block.validatorSignature.length < sphincsPkLen then
      .error ("Block " ++ toString block.index.toNat ++ " has no proposer public key")
    else if block.validatorSignature.take sphincsPkLen ≠ replica.node.localPublicKey then
      .error ("Block " ++ toString block.index.toNat ++ " proposer key does not belong to local validator " ++
        replica.node.localValidatorId)
    else .ok (replica, ())

def propose : Live Unit := do
  checkProposer block
  let _ ← startProposal sha3 sphincs σ block
  broadcast toVec (.proposal block)
  sendLocalVote sphincs toVec .prepare block.index

def receiveProposal : Live Unit := do
  let isNew ← startProposal sha3 sphincs σ block
  if isNew then sendLocalVote sphincs toVec .prepare block.index else pure ()

def receiveVote (blockHash validatorId : String) (signature : Bytes) :
    Live Unit := do
  lockEngine fun engine =>
    if engine.blockHashes.lookup height ≠ some blockHash then
      .error ("PBFT vote from " ++ validatorId ++ " refers to an unknown block at height " ++ toString height.toNat)
    else submitVote sphincs phase height validatorId signature "PBFT proposal phase cannot be submitted as a vote" engine
  if phase = .prepare then startLocalCommitIfPrepared sphincs toVec height else pure ()

end

end LivePbftFinality

end Bleep
