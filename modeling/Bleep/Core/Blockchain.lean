import Bleep.Core.BlockValidation
import Bleep.Core.BlockchainState

namespace Bleep
open HashTable BlockValidator

/-- The chain with the account state of its tip. The transaction pool, which
is drained in the background, has no effect on either. -/
structure Blockchain where
  chain : List Block
  state : BlockchainState

namespace Blockchain

def new (genesisBlock : Block) (state : BlockchainState) : Blockchain := ⟨[genesisBlock], state⟩

section
variable (hashes : Hashes) (sphincs : Sphincs) (verifyStark : VerifyStark)

/-- The loop of `restore_blocks`. The blocks before a refused one stay. -/
def restoreLoop (previous : Block) (chain : List Block) : List Block → Except String Unit × List Block
  | [] => (.ok (), chain)
  | block :: rest =>
    if block.index ≠ Words.saturatingAdd previous.index 1 then
      (.error ("Persisted block height " ++ toString block.index.toNat ++ " does not follow " ++
        toString previous.index.toNat), chain)
    else if block.validatorSignature.length < sphincsPkLen then
      (.error ("Persisted block " ++ toString block.index.toNat ++ " has no signer key"), chain)
    else
      let signer := block.validatorSignature.take sphincsPkLen
      if validateFullBlock hashes sphincs verifyStark previous block signer = false then
        (.error ("Persisted canonical block " ++ toString block.index.toNat ++ " failed validation"), chain)
      else restoreLoop block (chain ++ [block]) rest

variable (ledger : Blockchain)

def restoreBlocks (blocks : List Block) : Except String Unit × Blockchain :=
  match ledger.chain.getLast? with
  | none => (.error "Cannot restore blocks without a genesis block", ledger)
  | some previous =>
    let (result, chain) := restoreLoop hashes sphincs verifyStark previous ledger.chain blocks
    (result, { ledger with chain := chain })

def addBlockInner (block : Block) (validate : Block → Block → Bool) : Bool × Blockchain :=
  match ledger.chain.getLast? with
  | none => (false, ledger)
  | some lastBlock =>
    if (¬block.transactions.isEmpty ∨ block.index ≠ 0) ∧ validate lastBlock block = false then (false, ledger)
    else
      match ledger.state.applyBlock block with
      | (.error _, state) => (false, { ledger with state := state })
      | (.ok _, state) => (true, { chain := ledger.chain ++ [block], state := state })

def addBlock (block : Block) (publicKey : Bytes) : Bool × Blockchain :=
  ledger.addBlockInner block fun previous block =>
    validateFullBlock hashes sphincs verifyStark previous block publicKey

def addBlockWithValidatorSet (block : Block) (validatorKeys : List Bytes) :
    Bool × Blockchain :=
  ledger.addBlockInner block fun previous block =>
    validateFullBlockWithValidatorSet hashes sphincs verifyStark previous block validatorKeys

/-- The loop over the blocks of a candidate fork after its first. -/
def checkFork (validatorSets : HashMap U64 (List Bytes)) (previous : Block) : List Block → Except String Unit
  | [] => .ok ()
  | block :: rest =>
    match validatorSets.lookup block.epochId with
    | none => .error ("No validator set provided for candidate block epoch " ++ toString block.epochId.toNat)
    | some validatorKeys =>
      if block.index ≠ Words.saturatingAdd previous.index 1 ∨ validateFullBlockWithValidatorSet hashes
          sphincs verifyStark previous block validatorKeys = false then
        .error ("Candidate fork failed validation at block " ++ toString block.index.toNat)
      else checkFork validatorSets block rest

/-- The candidate blocks applied to the staged state. -/
def applyFork (staged : BlockchainState) : List Block → Except String BlockchainState
  | [] => .ok staged
  | block :: rest =>
    match staged.applyBlock block with
    | (.error error, _) =>
      .error ("Candidate fork state transition failed at block " ++ toString block.index.toNat ++ ": " ++ error)
    | (.ok _, staged) => applyFork staged rest

def handleFork (newChain : List Block) (validatorSets : HashMap U64 (List Bytes)) :
    Except String Unit × Blockchain :=
  if newChain.length ≤ ledger.chain.length then (.ok (), ledger)
  else
    match newChain, ledger.chain with
    | candidate :: rest, front :: _ =>
      if candidate.computeHash hashes.sha3 ≠ front.computeHash hashes.sha3 then
        (.error "Candidate fork does not share the canonical genesis block", ledger)
      else
        match checkFork hashes sphincs verifyStark validatorSets candidate rest with
        | .error error => (.error error, ledger)
        | .ok _ =>
          let commonPrefixLen := ((ledger.chain.zip newChain).takeWhile fun (current, candidate) =>
            current.computeHash hashes.sha3 == candidate.computeHash hashes.sha3).length
          if commonPrefixLen = 0 then (.error "Candidate fork has no common ancestor", ledger)
          else
            let staged := (ledger.chain.drop commonPrefixLen).reverse.foldl BlockchainState.revertBlock ledger.state
            match applyFork staged (newChain.drop commonPrefixLen) with
            | .error error => (.error error, ledger)
            | .ok state => (.ok (), { chain := newChain, state := state })
    | _, _ => (.error "Cannot resolve a fork without a genesis block", ledger)

def rollback : Blockchain :=
  match ledger.chain.getLast? with
  | none => ledger
  | some removed => { chain := ledger.chain.dropLast, state := ledger.state.revertBlock removed }

end

end Blockchain

end Bleep
