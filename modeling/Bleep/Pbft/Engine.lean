import Bleep.Block
import Bleep.Library.HashTable
import Bleep.Library.Quorum

namespace Bleep

open HashTable (HashMap IterOrder)

inductive PbftPhase
  | prePrepare
  | prepare
  | commit
  deriving DecidableEq

def PbftPhase.tag : PbftPhase → UInt8
  | prePrepare => 0
  | prepare => 1
  | commit => 2

inductive PbftBlockState
  | proposed
  | prepared
  | committed
  deriving DecidableEq

def pbftVoteDomain : Bytes := utf8 "BLEEP:PBFT:VOTE:V1\x00"

def pbftVoteMessage (phase : PbftPhase) (blockHeight : U64) (blockHash validatorId : String) : Bytes :=
  pbftVoteDomain ++ [phase.tag] ++ le64 blockHeight ++ lengthPrefixed blockHash ++ lengthPrefixed validatorId

theorem PbftPhase.tag_injective : Function.Injective PbftPhase.tag := by
  intro p q same
  cases p <;> cases q <;> first | rfl | exact absurd same (by decide)

variable {phase : PbftPhase}

/-- A validator's vote message determines the block it votes for. -/
theorem pbftVoteMessage_inj {phase' height height' hash hash' id}
    (same : pbftVoteMessage phase height hash id = pbftVoteMessage phase' height' hash' id) :
    height = height' ∧ hash = hash' := by
  have body := List.append_cancel_right same
  obtain ⟨head, hashes⟩ := List.append_inj body (by simp [le64])
  exact ⟨le64_injective (List.append_inj head (by simp)).2, lengthPrefixed_injective hashes⟩

/-- The two errors the PBFT engine raises. -/
inductive ConsensusError
  | invalidSignature (validatorId : String)
  | proposalRejected (reason : String)
  deriving DecidableEq

def ConsensusError.display : ConsensusError → String
  | invalidSignature validatorId => "Invalid signature from validator " ++ validatorId
  | proposalRejected reason => "Block proposal rejected: " ++ reason

/-- The hash sets of the source are finite sets, as only their members and
their sizes are read. -/
structure PbftConsensusEngine where
  totalValidators : Nat
  quorumSize : Nat
  finalizedBlocks : HashMap U64 PbftBlockState
  prepareVotes : HashMap U64 (Finset String)
  commitVotes : HashMap U64 (Finset String)
  knownValidators : Finset String
  validatorPubkeys : HashMap String Bytes
  blockHashes : HashMap U64 String

namespace PbftConsensusEngine

def fromValidatorKeys (knownValidators : Finset String) (validatorPubkeys : HashMap String Bytes) :
    PbftConsensusEngine where
  totalValidators := knownValidators.card
  quorumSize := knownValidators.card * 2 / 3 + 1
  finalizedBlocks := ∅
  prepareVotes := ∅
  commitVotes := ∅
  knownValidators := knownValidators
  validatorPubkeys := validatorPubkeys
  blockHashes := ∅

section
variable (sphincs : Sphincs)

/-- The loop over the key list, which builds `public_keys`. -/
def registerKeys (publicKeys : HashMap String Bytes) :
    List (String × Bytes) → Except ConsensusError (HashMap String Bytes)
  | [] => .ok publicKeys
  | (id, key) :: rest =>
    if id = "" ∨ key.length ≠ sphincsPkLen then
      .error (.proposalRejected ("Invalid validator ID or SPHINCS+ public key for '" ++ id ++ "'"))
    else
      match sphincs.publicKey key with
      | .error e => .error (.proposalRejected ("Invalid SPHINCS+ public key for '" ++ id ++ "': " ++ e))
      | .ok _ =>
        if (publicKeys.lookup id).isSome then
          .error (.proposalRejected ("Duplicate validator ID '" ++ id ++ "'"))
        else registerKeys (publicKeys.insert id key) rest

def newWithValidatorKeys (validatorId : String) (validatorKeys : List (String × Bytes)) :
    Except ConsensusError PbftConsensusEngine :=
  if validatorKeys.isEmpty then .error (.proposalRejected "total_validators must be > 0")
  else
    match registerKeys sphincs ∅ validatorKeys with
    | .error e => .error e
    | .ok publicKeys =>
      if (publicKeys.lookup validatorId).isNone then
        .error (.proposalRejected ("Local validator '" ++ validatorId ++ "' has no registered public key"))
      else .ok (fromValidatorKeys publicKeys.keys.toFinset publicKeys)

variable (engine : PbftConsensusEngine)

/-- The members of the new committee that keep their key. -/
def retainedVoters (publicKeys : HashMap String Bytes) : Finset String :=
  publicKeys.keys.toFinset.filter fun id => engine.validatorPubkeys.lookup id = publicKeys.lookup id

/-- What the loop over the blocks notes down for the time after it. -/
inductive Reclassified
  | unchanged
  | newlyCommitted
  | rollbackPrepared
  deriving DecidableEq

/-- One turn of the loop over the blocks, with the three tests in a row. -/
def reclassify (quorumSize : Nat) (prepareVotes commitVotes : Option (Finset String)) (state : PbftBlockState) :
    PbftBlockState × Reclassified :=
  let prepareQuorum := prepareVotes.any fun votes => quorumSize ≤ votes.card
  let commitQuorum := commitVotes.any fun votes => quorumSize ≤ votes.card
  let state := if state = .proposed ∧ prepareQuorum then .prepared else state
  if state = .prepared ∧ ¬prepareQuorum then (.proposed, .rollbackPrepared)
  else if state = .prepared ∧ commitQuorum then (.committed, .newlyCommitted)
  else (state, .unchanged)

/-- What `set_committee` writes once the new keys are registered. -/
def replaceCommittee (publicKeys : HashMap String Bytes) : PbftConsensusEngine :=
  let knownValidators := publicKeys.keys.toFinset
  let totalValidators := knownValidators.card
  let quorumSize := totalValidators * 2 / 3 + 1
  let retained := engine.retainedVoters publicKeys
  let prepareVotes := HashTable.mapValues (fun _ votes => votes ∩ retained) engine.prepareVotes
  let commitVotes := HashTable.mapValues (fun _ votes => votes ∩ retained) engine.commitVotes
  let turn height := reclassify quorumSize (prepareVotes.lookup height) (commitVotes.lookup height)
  let noted (outcome : Reclassified) : List U64 :=
    ((HashTable.pairs engine.finalizedBlocks).filter fun entry => (turn entry.1 entry.2).2 = outcome).map Prod.fst
  { engine with
    totalValidators := totalValidators
    quorumSize := quorumSize
    knownValidators := knownValidators
    validatorPubkeys := publicKeys
    finalizedBlocks := HashTable.mapValues (fun height state => (turn height state).1) engine.finalizedBlocks
    prepareVotes := HashTable.eraseAll prepareVotes (noted .newlyCommitted)
    commitVotes := HashTable.eraseAll (HashTable.eraseAll commitVotes (noted .newlyCommitted)) (noted .rollbackPrepared) }

def setCommittee (validatorKeys : List (String × Bytes)) : Except ConsensusError PbftConsensusEngine :=
  if validatorKeys.isEmpty then .error (.proposalRejected "committee must contain at least one validator")
  else
    match registerKeys sphincs ∅ validatorKeys with
    | .error e => .error e
    | .ok publicKeys => .ok (engine.replaceCommittee publicKeys)

variable (blockHeight : U64)

def isFinalized : Bool := engine.finalizedBlocks.lookup blockHeight = some .committed

def blockState : Option PbftBlockState := engine.finalizedBlocks.lookup blockHeight

def verifyRegisteredBlockSignature (sha3 : Bytes → Hash32) (σ : IterOrder) (block : Block) :
    Except ConsensusError Unit :=
  if block.validatorSignature.length ≠ sphincsPkLen + sphincsSigLen then .error (.invalidSignature "unknown")
  else
    let storedPublicKey := block.validatorSignature.take sphincsPkLen
    match (σ.iter 0 engine.validatorPubkeys).find? fun entry => entry.2 = storedPublicKey with
    | none => .error (.invalidSignature "unregistered")
    | some (validatorId, publicKey) =>
      match block.verifySignature sha3 sphincs publicKey with
      | .error _ => .error (.invalidSignature validatorId)
      | .ok verified => if verified then .ok () else .error (.invalidSignature validatorId)

/-- What `pre_prepare` writes once its checks have passed. -/
def admitProposal (blockHash : String) : PbftConsensusEngine :=
  { engine with
    finalizedBlocks := engine.finalizedBlocks.insert blockHeight .proposed
    blockHashes := engine.blockHashes.insert blockHeight blockHash
    prepareVotes := engine.prepareVotes.insert blockHeight ((engine.prepareVotes.lookup blockHeight).getD ∅)
    commitVotes := engine.commitVotes.insert blockHeight ((engine.commitVotes.lookup blockHeight).getD ∅) }

def prePrepare (sha3 : Bytes → Hash32) (σ : IterOrder) (blockHeight : U64) (block : Block) :
    Except ConsensusError PbftConsensusEngine :=
  if block.index ≠ blockHeight then
    .error (.proposalRejected ("Pre-prepare height " ++ toString blockHeight.toNat ++
      " does not match block height " ++ toString block.index.toNat))
  else
    match engine.verifyRegisteredBlockSignature sphincs sha3 σ block with
    | .error e => .error e
    | .ok _ =>
      if (engine.finalizedBlocks.lookup blockHeight).isSome then
        .error (.proposalRejected ("Block " ++ toString blockHeight.toNat ++ " already in finalization pipeline"))
      else .ok (engine.admitProposal blockHeight (block.computeHash sha3))

def verifyVote (phase : PbftPhase) (blockHeight : U64) (validatorId : String) (signature : Bytes) :
    Except ConsensusError Unit :=
  match engine.validatorPubkeys.lookup validatorId with
  | none => .error (.invalidSignature validatorId)
  | some publicKey =>
    if signature.length ≠ sphincsSigLen then .error (.invalidSignature validatorId)
    else
      match engine.blockHashes.lookup blockHeight with
      | none =>
        .error (.proposalRejected ("No pre-prepare block hash for height " ++ toString blockHeight.toNat))
      | some blockHash =>
        match sphincs.publicKey publicKey with
        | .error _ => .error (.invalidSignature validatorId)
        | .ok _ =>
          match sphincs.detachedSignature signature with
          | .error _ => .error (.invalidSignature validatorId)
          | .ok _ =>
            if sphincs.verifyDetachedSignature signature (pbftVoteMessage phase blockHeight blockHash validatorId)
                publicKey then .ok ()
            else .error (.invalidSignature validatorId)

/-- What `process_prepare` writes for a vote that has passed its checks. -/
def countPrepare (preparerId : String) : PbftConsensusEngine :=
  let votes := insert preparerId ((engine.prepareVotes.lookup blockHeight).getD ∅)
  { engine with
    prepareVotes := engine.prepareVotes.insert blockHeight votes
    finalizedBlocks :=
      if engine.quorumSize ≤ votes.card then engine.finalizedBlocks.insert blockHeight .prepared
      else engine.finalizedBlocks }

def processPrepare (preparerId : String) (signature : Bytes) :
    Except ConsensusError PbftConsensusEngine :=
  if engine.finalizedBlocks.lookup blockHeight ≠ some .proposed then .ok engine
  else if preparerId ∉ engine.knownValidators then .ok engine
  else
    match engine.verifyVote sphincs .prepare blockHeight preparerId signature with
    | .error e => .error e
    | .ok _ => .ok (engine.countPrepare blockHeight preparerId)

/-- What `process_commit` writes for a vote that has passed its checks. -/
def countCommit (committerId : String) : PbftConsensusEngine :=
  let votes := insert committerId ((engine.commitVotes.lookup blockHeight).getD ∅)
  if engine.quorumSize ≤ votes.card then
    -- the accumulators of a committed block are freed
    { engine with
      finalizedBlocks := engine.finalizedBlocks.insert blockHeight .committed
      prepareVotes := engine.prepareVotes.erase blockHeight
      commitVotes := engine.commitVotes.erase blockHeight }
  else { engine with commitVotes := engine.commitVotes.insert blockHeight votes }

def processCommit (committerId : String) (signature : Bytes) :
    Except ConsensusError PbftConsensusEngine :=
  if engine.finalizedBlocks.lookup blockHeight ≠ some .prepared then .ok engine
  else if committerId ∉ engine.knownValidators then .ok engine
  else
    match engine.verifyVote sphincs .commit blockHeight committerId signature with
    | .error e => .error e
    | .ok _ => .ok (engine.countCommit blockHeight committerId)

end

section Outcomes
variable {sphincs : Sphincs} {engine next : PbftConsensusEngine} {height : U64} {id : String} {signature : Bytes}

theorem verifyVote_ok (verified : engine.verifyVote sphincs phase height id signature = .ok ()) :
    ∃ key hash, engine.validatorPubkeys.lookup id = some key ∧ engine.blockHashes.lookup height = some hash ∧
      sphincs.verifyDetachedSignature signature (pbftVoteMessage phase height hash id) key = true := by
  unfold verifyVote at verified
  split at verified
  · cases verified
  rename_i key registered
  split at verified
  · cases verified
  split at verified
  · cases verified
  rename_i hash recorded
  split at verified
  · cases verified
  split at verified
  · cases verified
  split at verified
  · rename_i valid
    exact ⟨key, hash, registered, recorded, valid⟩
  · cases verified

theorem prePrepare_ok {sha3 σ block} (admitted : engine.prePrepare sphincs sha3 σ height block = .ok next) :
    next = engine.admitProposal height (block.computeHash sha3) := by
  unfold prePrepare at admitted
  split at admitted
  · cases admitted
  split at admitted
  · cases admitted
  split at admitted
  · cases admitted
  exact (Except.ok.inj admitted).symm

/-- A vote is ignored, or it has passed the three checks and is counted. -/
theorem counted_of_gate {wanted : PbftBlockState} {verified : Except ConsensusError Unit}
    {counted : PbftConsensusEngine}
    (processed : (if engine.finalizedBlocks.lookup height ≠ some wanted then .ok engine
      else if id ∉ engine.knownValidators then .ok engine
      else match verified with
        | .error e => .error e
        | .ok _ => .ok counted) = (.ok next : Except ConsensusError PbftConsensusEngine)) :
    next = engine ∨ engine.finalizedBlocks.lookup height = some wanted ∧ id ∈ engine.knownValidators ∧
      verified = .ok () ∧ next = counted := by
  split at processed
  · exact .inl (Except.ok.inj processed).symm
  rename_i reached
  split at processed
  · exact .inl (Except.ok.inj processed).symm
  rename_i known
  split at processed
  · cases processed
  · exact .inr ⟨not_not.mp reached, not_not.mp known, rfl, (Except.ok.inj processed).symm⟩

theorem processPrepare_ok (processed : engine.processPrepare sphincs height id signature = .ok next) :
    next = engine ∨ engine.finalizedBlocks.lookup height = some .proposed ∧ id ∈ engine.knownValidators ∧
      engine.verifyVote sphincs .prepare height id signature = .ok () ∧ next = engine.countPrepare height id :=
  counted_of_gate processed

theorem processCommit_ok (processed : engine.processCommit sphincs height id signature = .ok next) :
    next = engine ∨ engine.finalizedBlocks.lookup height = some .prepared ∧ id ∈ engine.knownValidators ∧
      engine.verifyVote sphincs .commit height id signature = .ok () ∧ next = engine.countCommit height id :=
  counted_of_gate processed

end Outcomes

end PbftConsensusEngine

end Bleep
