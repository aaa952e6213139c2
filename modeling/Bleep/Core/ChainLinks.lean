import Bleep.Core.Blockchain
import Bleep.Library.Runs

namespace Bleep
open HashTable Blockchain Block List Option BlockValidator Blockchain Block

/-- Each block is where its index says, and points to the block before it. -/
structure Linked (sha3 : Bytes → Hash32) (chain : List Block) : Prop where
  index : ∀ i (block : Block), chain[i]? = some block → block.index.toNat = i
  follows : ∀ i (previous block : Block), chain[i]? = some previous → chain[i + 1]? = some block →
    block.previousHash = previous.computeHash sha3 ∧ block.chainId = previous.chainId

section Links
variable {sha3 : Bytes → Hash32} {chain rest : List Block} {block previous : Block}

theorem linked_nil : Linked sha3 [] := ⟨by simp, by simp⟩

theorem linked_singleton (zero : block.index = 0) : Linked sha3 [block] := by
  refine ⟨fun i other here => ?_, fun i first second _ next => ?_⟩
  · obtain ⟨bound, rfl⟩ := List.getElem?_eq_some_iff.mp here
    have first : i = 0 := by simpa using bound
    subst first
    simp [zero]
  · simp at next

theorem Linked.initial (linked : Linked sha3 (chain ++ rest)) : Linked sha3 chain := by
  have kept {i : Nat} {block : Block} (here : chain[i]? = some block) : (chain ++ rest)[i]? = some block := by
    obtain ⟨bound, -⟩ := List.getElem?_eq_some_iff.mp here
    rw [List.getElem?_append_left bound]
    exact here
  exact ⟨fun i block here => linked.index i block (kept here),
    fun i previous block here next => linked.follows i previous block (kept here) (kept next)⟩

theorem ne_nil_of_getLast? (last : chain.getLast? = some previous) : chain ≠ [] := by
  rintro rfl
  cases last

theorem head?_extend (last : chain.getLast? = some previous) :
    (chain ++ rest).head? = chain.head? := by
  obtain ⟨first, others, rfl⟩ := exists_cons_of_ne_nil (ne_nil_of_getLast? last)
  rfl

theorem getElem?_concat_iff {i other} :
    (chain ++ [block])[i]? = some other ↔ chain[i]? = some other ∨ i = chain.length ∧ block = other := by
  rcases Nat.lt_trichotomy i chain.length with inside | rfl | beyond
  · simp [List.getElem?_append_left inside, inside.ne]
  · simp
  · have ended : (chain ++ [block])[i]? = none := by simpa using beyond
    simp [ended, beyond.ne', beyond.le]

/-- A block is linked behind the last one exactly when its index, its previous
hash and its chain are right. -/
theorem linked_append_iff (linked : Linked sha3 chain) (last : chain.getLast? = some previous) :
    Linked sha3 (chain ++ [block]) ↔ block.index.toNat = chain.length ∧
      block.previousHash = previous.computeHash sha3 ∧ block.chainId = previous.chainId := by
  have positive := length_pos_iff.mpr (ne_nil_of_getLast? last)
  have atLast : chain[chain.length - 1]? = some previous := by rw [← getLast?_eq_getElem?, last]
  constructor
  · intro extended
    exact ⟨extended.index _ _ (getElem?_concat_iff.mpr (.inr ⟨rfl, rfl⟩)),
      extended.follows _ _ _ (getElem?_concat_iff.mpr (.inl atLast)) (getElem?_concat_iff.mpr (.inr ⟨by omega, rfl⟩))⟩
  · rintro ⟨index, link⟩
    refine ⟨fun i other here => ?_, fun i first second here next => ?_⟩
    · rcases getElem?_concat_iff.mp here with earlier | ⟨rfl, rfl⟩
      · exact linked.index i other earlier
      · exact index
    · have inside : i < chain.length := by
        have bound := (List.getElem?_eq_some_iff.mp next).1
        rw [length_append, length_singleton] at bound
        omega
      rw [List.getElem?_append_left inside] at here
      rcases getElem?_concat_iff.mp next with earlier | ⟨ended, rfl⟩
      · exact linked.follows i first second here earlier
      · obtain rfl : i = chain.length - 1 := by omega
        cases atLast.symm.trans here
        exact link

end Links

section Validated
variable {hashes : Hashes} {sphincs : Sphincs} {verifyStark : VerifyStark} {previous block : Block}

theorem link_of_validateFullBlock {publicKey}
    (valid : validateFullBlock hashes sphincs verifyStark previous block publicKey = true) :
    block.previousHash = previous.computeHash hashes.sha3 ∧ block.chainId = previous.chainId := by
  simp only [validateFullBlock, validateChainId, validateBlockLink,
    Bool.and_eq_true, beq_iff_eq] at valid
  obtain ⟨⟨⟨⟨⟨⟨-, chainId⟩, -⟩, -⟩, link⟩, -⟩, -⟩ := valid
  exact ⟨link, chainId⟩

theorem link_of_validateFullBlockWithValidatorSet {validatorKeys}
    (valid : validateFullBlockWithValidatorSet hashes sphincs verifyStark previous block validatorKeys =
      true) :
    block.previousHash = previous.computeHash hashes.sha3 ∧ block.chainId = previous.chainId := by
  simp only [validateFullBlockWithValidatorSet, validateChainId,
    validateBlockLink, Bool.and_eq_true, beq_iff_eq] at valid
  obtain ⟨⟨⟨⟨⟨⟨-, chainId⟩, -⟩, -⟩, link⟩, -⟩, -⟩ := valid
  exact ⟨link, chainId⟩

end Validated

namespace Blockchain

section Steps
variable {hashes : Hashes} {sphincs : Sphincs} {verifyStark : VerifyStark} {chain : List Block} {previous : Block}

/-- The index that `saturating_add` asks for is the next one, as long as the
chain fits into memory. -/
theorem next_index {block : Block} (linked : Linked hashes.sha3 chain) (last : chain.getLast? = some previous)
    (bounded : chain.length < 2 ^ 64) (next : block.index = Words.saturatingAdd previous.index 1) :
    block.index.toNat = chain.length := by
  have atLast : chain[chain.length - 1]? = some previous := by rw [← getLast?_eq_getElem?, last]
  have index := linked.index _ _ atLast
  obtain ⟨inside, -⟩ := List.getElem?_eq_some_iff.mp atLast
  have one : (1 : U64).toNat = 1 := rfl
  rw [next, Words.toNat_saturatingAdd, index, one]
  omega

theorem restoreLoop_cons (chain : List Block) (block : Block) (rest : List Block) :
    (restoreLoop hashes sphincs verifyStark previous chain (block :: rest)).2 = chain ∨
    block.index = Words.saturatingAdd previous.index 1 ∧
      (block.previousHash = previous.computeHash hashes.sha3 ∧ block.chainId = previous.chainId) ∧
      (restoreLoop hashes sphincs verifyStark previous chain (block :: rest)).2 =
        (restoreLoop hashes sphincs verifyStark block (chain ++ [block]) rest).2 := by
  simp only [restoreLoop]
  split
  · exact .inl rfl
  rename_i next
  split
  · exact .inl rfl
  split
  · exact .inl rfl
  rename_i valid
  exact .inr ⟨not_not.mp next, link_of_validateFullBlock (Bool.not_eq_false _ ▸ valid), rfl⟩

theorem prefix_restoreLoop (blocks : List Block) :
    chain <+: (restoreLoop hashes sphincs verifyStark previous chain blocks).2 := by
  induction blocks generalizing previous chain with
  | nil => exact prefix_rfl
  | cons block rest ih =>
    rcases @restoreLoop_cons hashes sphincs verifyStark previous chain block rest with stays | ⟨-, -, goes⟩
    · rw [stays]
    · rw [goes]
      exact (prefix_append chain [block]).trans ih

section
variable {blocks : List Block} (linked : Linked hashes.sha3 chain) (last : chain.getLast? = some previous)
include linked last

/-- `restore_blocks` checks all that a link needs. -/
theorem linked_restoreLoop (bounded : (restoreLoop hashes sphincs verifyStark previous chain blocks).2.length ≤ 2 ^ 64)
    :
    Linked hashes.sha3 (restoreLoop hashes sphincs verifyStark previous chain blocks).2 := by
  induction blocks generalizing previous chain with
  | nil => exact linked
  | cons block rest ih =>
    rcases @restoreLoop_cons hashes sphincs verifyStark previous chain block rest with stays | ⟨next, link, goes⟩
    · rw [stays]
      exact linked
    · have grown := (@prefix_restoreLoop hashes sphincs verifyStark (chain ++ [block]) block rest).length_le
      rw [length_append, length_singleton] at grown
      rw [goes] at bounded ⊢
      have index := next_index linked last (by omega) next
      exact ih ((linked_append_iff linked last).mpr ⟨index, link⟩) (getLast?_concat ..) bounded

/-- So does the loop of `handle_fork`, behind a first block that is in place. -/
theorem linked_checkFork {validatorSets}
    (checked : checkFork hashes sphincs verifyStark validatorSets previous blocks = .ok ())
    (bounded : (chain ++ blocks).length ≤ 2 ^ 64) : Linked hashes.sha3 (chain ++ blocks) := by
  induction blocks generalizing previous chain with
  | nil => rwa [append_nil]
  | cons block rest ih =>
    simp only [checkFork] at checked
    split at checked
    · cases checked
    split at checked
    · cases checked
    rename_i validatorKeys _ passed
    obtain ⟨next, valid⟩ := not_or.mp passed
    have short : chain.length < 2 ^ 64 := by
      simp only [length_append, length_cons] at bounded
      omega
    have index := next_index linked last short (not_not.mp next)
    have extended := (linked_append_iff linked last).mpr
      ⟨index, link_of_validateFullBlockWithValidatorSet (Bool.not_eq_false _ ▸ valid)⟩
    rw [append_cons]
    exact ih extended (getLast?_concat ..) checked (by rwa [← append_cons])

end

variable (ledger : Blockchain)

/-- What an accepted block has passed: all of the validation but its index,
unless it is empty and claims index 0. A refused one leaves the chain. -/
theorem addBlockInner_cases (block : Block) (validate : Block → Block → Bool) :
    (ledger.addBlockInner block validate).1 = false ∧ (ledger.addBlockInner block validate).2.chain = ledger.chain ∨
    (ledger.addBlockInner block validate).1 = true ∧
      (ledger.addBlockInner block validate).2.chain = ledger.chain ++ [block] ∧
      ∃ last, ledger.chain.getLast? = some last ∧ (block.index = 0 ∨ validate last block = true) := by
  unfold addBlockInner
  split
  · exact .inl ⟨rfl, rfl⟩
  rename_i last found
  split
  · exact .inl ⟨rfl, rfl⟩
  rename_i passed
  split
  · exact .inl ⟨rfl, rfl⟩
  refine .inr ⟨rfl, rfl, last, found, ?_⟩
  by_contra neither
  obtain ⟨nonzero, refused⟩ := not_or.mp neither
  exact passed ⟨.inr nonzero, Bool.not_eq_true _ ▸ refused⟩

/-- The blocks at which both chains have the same hash, from the front. -/
theorem common_hashes {newChain : List Block} {alike : Block × Block → Bool} {i : Nat}
    (sound : ∀ current candidate, alike (current, candidate) = true →
      current.computeHash hashes.sha3 = candidate.computeHash hashes.sha3)
    (inside : i < ((chain.zip newChain).takeWhile alike).length) :
    ∃ current candidate, chain[i]? = some current ∧ newChain[i]? = some candidate ∧
      current.computeHash hashes.sha3 = candidate.computeHash hashes.sha3 := by
  obtain ⟨⟨current, candidate⟩, found⟩ : ∃ pair, ((chain.zip newChain).takeWhile alike)[i]? = some pair :=
    ⟨_, List.getElem?_eq_getElem inside⟩
  obtain ⟨rest, split⟩ := @List.takeWhile_prefix _ (chain.zip newChain) alike
  have zipped : (chain.zip newChain)[i]? = some (current, candidate) := by
    rw [← found, ← List.getElem?_append_left inside, split]
  obtain ⟨here, there⟩ := List.getElem?_zip_eq_some.mp zipped
  have same := all_eq_true.mp (@List.all_takeWhile _ alike (chain.zip newChain)) _ (mem_of_getElem? found)
  exact ⟨current, candidate, here, there, sound current candidate same⟩

/-- What `handle_fork` can do: nothing, with or without an error, or adopt the
candidate with the state that it staged. -/
theorem handleFork_outcome (newChain : List Block) (validatorSets : HashMap U64 (List Bytes)) :
    (∃ error, ledger.handleFork hashes sphincs verifyStark newChain validatorSets = (.error error, ledger)) ∨
    (newChain.length ≤ ledger.chain.length ∧
      ledger.handleFork hashes sphincs verifyStark newChain validatorSets = (.ok (), ledger)) ∨
    ∃ common state, 0 < common ∧
      (∀ i < common, ∃ current candidate, ledger.chain[i]? = some current ∧ newChain[i]? = some candidate ∧
        current.computeHash hashes.sha3 = candidate.computeHash hashes.sha3) ∧
      applyFork ((ledger.chain.drop common).reverse.foldl BlockchainState.revertBlock ledger.state)
        (newChain.drop common) = .ok state ∧
      (∃ candidate rest, newChain = candidate :: rest ∧
        checkFork hashes sphincs verifyStark validatorSets candidate rest = .ok ()) ∧
      ledger.handleFork hashes sphincs verifyStark newChain validatorSets = (.ok (), ⟨newChain, state⟩) := by
  unfold handleFork
  split
  · rename_i short
    exact .inr (.inl ⟨short, rfl⟩)
  split
  · split
    · exact .inl ⟨_, rfl⟩
    split
    · exact .inl ⟨_, rfl⟩
    rename_i checked
    simp only
    split
    · exact .inl ⟨_, rfl⟩
    rename_i shared
    split
    · exact .inl ⟨_, rfl⟩
    rename_i state applied
    exact .inr (.inr ⟨_, state, Nat.pos_of_ne_zero shared, fun i => common_hashes fun _ _ => eq_of_beq, applied,
      ⟨_, _, rfl, checked⟩, rfl⟩)
  · exact .inl ⟨_, rfl⟩

theorem handleFork_cases (newChain : List Block) (validatorSets : HashMap U64 (List Bytes)) :
    (ledger.handleFork hashes sphincs verifyStark newChain validatorSets).2.chain = ledger.chain ∨
    ∃ candidate rest front others, newChain = candidate :: rest ∧ ledger.chain = front :: others ∧
      candidate.computeHash hashes.sha3 = front.computeHash hashes.sha3 ∧
      checkFork hashes sphincs verifyStark validatorSets candidate rest = .ok () ∧
      (ledger.handleFork hashes sphincs verifyStark newChain validatorSets).2.chain = newChain := by
  rcases @handleFork_outcome hashes sphincs verifyStark ledger newChain validatorSets with
    ⟨error, failed⟩ | ⟨-, shorter⟩ | ⟨common, state, positive, hashed, -, ⟨candidate, rest, rfl, checked⟩, adopted⟩
  · rw [failed]
    exact .inl rfl
  · rw [shorter]
    exact .inl rfl
  · obtain ⟨current, first, here, there, same⟩ := hashed 0 positive
    obtain ⟨front, others, chain⟩ := exists_cons_of_ne_nil (show ledger.chain ≠ [] by
      intro empty
      rw [empty] at here
      cases here)
    rw [chain] at here
    cases here
    cases there
    rw [adopted]
    exact .inr ⟨_, rest, _, others, rfl, chain, same.symm, checked, rfl⟩

theorem chain_rollback : ledger.rollback.chain = ledger.chain.dropLast := by
  unfold rollback
  split
  · rename_i empty
    rw [getLast?_eq_none_iff.mp empty, dropLast_nil]
  · rfl

end Steps

end Blockchain

inductive ChainCall
  | addBlock (block : Block) (publicKey : Bytes)
  | addBlockWithValidatorSet (block : Block) (validatorKeys : List Bytes)
  | restoreBlocks (blocks : List Block)
  | handleFork (newChain : List Block) (validatorSets : HashMap U64 (List Bytes))
  | rollback

section Runs
variable (hashes : Hashes) (sphincs : Sphincs) (verifyStark : VerifyStark)

variable (ledger : Blockchain)

def ChainCall.apply : ChainCall → Blockchain
  | addBlock block publicKey => (ledger.addBlock hashes sphincs verifyStark block publicKey).2
  | addBlockWithValidatorSet block validatorKeys =>
    (ledger.addBlockWithValidatorSet hashes sphincs verifyStark block validatorKeys).2
  | restoreBlocks blocks => (ledger.restoreBlocks hashes sphincs verifyStark blocks).2
  | handleFork newChain validatorSets => (ledger.handleFork hashes sphincs verifyStark newChain validatorSets).2
  | rollback => ledger.rollback

/-- The block that `add_block` or `add_block_with_validator_set` accepts. -/
def ChainCall.added : ChainCall → Option Block
  | addBlock block publicKey =>
    if (ledger.addBlock hashes sphincs verifyStark block publicKey).1 then some block else none
  | addBlockWithValidatorSet block validatorKeys =>
    if (ledger.addBlockWithValidatorSet hashes sphincs verifyStark block validatorKeys).1 then some block else none
  | _ => none

/-- The first block of a candidate fork, whose hash is compared. -/
def ChainCall.candidate : ChainCall → Option Block
  | handleFork newChain _ => newChain.head?
  | _ => none

def Blockchain.run (calls : List ChainCall) : Blockchain :=
  calls.foldl (ChainCall.apply hashes sphincs verifyStark) ledger

/-- The headers that are hashed to compare the first block with that of a
fork. -/
def frontInputs (genesis : Block) (calls : List ChainCall) : Set Bytes :=
  { input | ∃ block : Block, (block = genesis ∨ ∃ call ∈ calls, call.candidate = some block) ∧
    input = block.toBlockHeader.canonicalHashPreimage hashes.sha3 }

variable {hashes sphincs verifyStark} {ledger : Blockchain} {call : ChainCall}

/-- An accepted block is appended, and then it is linked exactly when its index
is the next one. -/
theorem linked_added_iff {block} (linked : Linked hashes.sha3 ledger.chain)
    (added : call.added hashes sphincs verifyStark ledger = some block) :
    (call.apply hashes sphincs verifyStark ledger).chain = ledger.chain ++ [block] ∧
      (Linked hashes.sha3 (call.apply hashes sphincs verifyStark ledger).chain ↔
        block.index.toNat = ledger.chain.length) := by
  have appended {validate : Block → Block → Bool}
      (links : ∀ last, validate last block = true →
        block.previousHash = last.computeHash hashes.sha3 ∧ block.chainId = last.chainId)
      (accepted : (ledger.addBlockInner block validate).1 = true) :
      (ledger.addBlockInner block validate).2.chain = ledger.chain ++ [block] ∧
        (Linked hashes.sha3 (ledger.addBlockInner block validate).2.chain ↔
          block.index.toNat = ledger.chain.length) := by
    rcases ledger.addBlockInner_cases block validate with ⟨refused, -⟩ | ⟨-, chain, last, found, passed⟩
    · cases accepted.symm.trans refused
    rw [chain, linked_append_iff linked found]
    refine ⟨rfl, And.left, fun index => ⟨index, ?_⟩⟩
    -- behind another block the index is not 0, so the validation was not skipped
    have positive := length_pos_iff.mpr (ne_nil_of_getLast? found)
    rcases passed with zero | valid
    · rw [zero] at index
      simp at index
      omega
    · exact links last valid
  cases call with
  | addBlock other publicKey =>
    simp only [ChainCall.added, ite_none_right_eq_some, some.injEq] at added
    obtain ⟨accepted, rfl⟩ := added
    exact appended (fun _ => link_of_validateFullBlock) accepted
  | addBlockWithValidatorSet other validatorKeys =>
    simp only [ChainCall.added, ite_none_right_eq_some, some.injEq] at added
    obtain ⟨accepted, rfl⟩ := added
    exact appended (fun _ => link_of_validateFullBlockWithValidatorSet) accepted
  | restoreBlocks | handleFork | rollback => cases added

/-- The other calls keep the links, as far as the first block of a fork has the
index of the one it replaces. -/
theorem linked_not_added (linked : Linked hashes.sha3 ledger.chain)
    (refused : call.added hashes sphincs verifyStark ledger = none)
    (bounded : (call.apply hashes sphincs verifyStark ledger).chain.length ≤ 2 ^ 64)
    (fronts : ∀ candidate front, call.candidate = some candidate → ledger.chain.head? = some front →
      candidate.computeHash hashes.sha3 = front.computeHash hashes.sha3 → candidate.index = front.index) :
    Linked hashes.sha3 (call.apply hashes sphincs verifyStark ledger).chain := by
  have kept {block : Block} {validate : Block → Block → Bool}
      (refused : (ledger.addBlockInner block validate).1 = false) :
      Linked hashes.sha3 (ledger.addBlockInner block validate).2.chain := by
    rcases ledger.addBlockInner_cases block validate with ⟨-, same⟩ | ⟨accepted, -⟩
    · rw [same]
      exact linked
    · cases accepted.symm.trans refused
  cases call with
  | addBlock block publicKey =>
    simp only [ChainCall.added, ite_eq_right_iff, reduceCtorEq, imp_false, Bool.not_eq_true] at refused
    exact kept refused
  | addBlockWithValidatorSet block validatorKeys =>
    simp only [ChainCall.added, ite_eq_right_iff, reduceCtorEq, imp_false, Bool.not_eq_true] at refused
    exact kept refused
  | restoreBlocks blocks =>
    simp only [ChainCall.apply, restoreBlocks] at bounded ⊢
    split
    · exact linked
    · rename_i last found
      simp only [found] at bounded
      exact linked_restoreLoop linked found bounded
  | handleFork newChain validatorSets =>
    rcases @handleFork_cases hashes sphincs verifyStark ledger newChain validatorSets with
      same | ⟨candidate, rest, front, others, rfl, chain, shared, checked, adopted⟩
    · rw [ChainCall.apply, same]
      exact linked
    · rw [ChainCall.apply, adopted] at bounded ⊢
      have first := linked.index 0 front (by rw [chain]; rfl)
      have index := fronts candidate front rfl (by rw [chain]; rfl) shared
      have zero : candidate.index = 0 := by
        rw [index]
        exact BitVec.eq_of_toNat_eq first
      exact linked_checkFork (linked_singleton zero) rfl checked bounded
  | rollback =>
    rw [ChainCall.apply, chain_rollback]
    by_cases empty : ledger.chain = []
    · rw [empty]
      exact linked_nil
    · have split := dropLast_append_getLast empty
      rw [← split] at linked
      exact linked.initial

/-- The first block stays, or it is that of an adopted fork. -/
theorem front_apply {front} (found : (call.apply hashes sphincs verifyStark ledger).chain.head? = some front) :
    ledger.chain.head? = some front ∨ call.candidate = some front := by
  have extended {block : Block} {validate : Block → Block → Bool}
      (found : (ledger.addBlockInner block validate).2.chain.head? = some front) :
      ledger.chain.head? = some front := by
    rcases ledger.addBlockInner_cases block validate with ⟨-, same⟩ | ⟨-, appended, last, atEnd, -⟩
    · rwa [same] at found
    · rwa [appended, head?_extend atEnd] at found
  cases call with
  | addBlock block publicKey => exact .inl (extended found)
  | addBlockWithValidatorSet block validatorKeys => exact .inl (extended found)
  | restoreBlocks blocks =>
    simp only [ChainCall.apply, restoreBlocks] at found
    split at found
    · exact .inl found
    rename_i last atEnd
    obtain ⟨added, result⟩ := @prefix_restoreLoop hashes sphincs verifyStark ledger.chain last blocks
    simp only [← result, head?_extend atEnd] at found
    exact .inl found
  | handleFork newChain validatorSets =>
    rcases @handleFork_cases hashes sphincs verifyStark ledger newChain validatorSets with
      same | ⟨candidate, rest, _, _, rfl, -, -, -, adopted⟩
    · rw [ChainCall.apply, same] at found
      exact .inl found
    · rw [ChainCall.apply, adopted] at found
      exact .inr found
  | rollback =>
    rw [ChainCall.apply, chain_rollback, head?_dropLast] at found
    split at found
    · exact .inl found
    · cases found

theorem front_run {genesis front calls} (start : ledger.chain = [genesis])
    (found : (ledger.run hashes sphincs verifyStark calls).chain.head? = some front) :
    front = genesis ∨ ∃ call ∈ calls, call.candidate = some front := by
  refine @foldlRecOn _ _ (fun ledger => ledger.chain.head? = some front → _) calls _ ledger ?_ ?_ found
  · intro found
    rw [start] at found
    exact .inl (some.inj found).symm
  · intro before ih call listed found
    rcases front_apply found with earlier | adopted
    · exact ih earlier
    · exact .inr ⟨call, listed, adopted⟩

variable {genesis : Block} {state : BlockchainState} {calls : List ChainCall}

/-- Over any run from a genesis block of index 0, the chain is linked all the
time exactly when every block that `add_block` and `add_block_with_validator_set`
accept has the next index: these two never compare it. -/
theorem chain_linked_iff (zero : genesis.index = 0)
    (injective : Set.InjOn hashes.sha3 (frontInputs hashes genesis calls))
    (bounded : ∀ n, ((Blockchain.new genesis state).run hashes sphincs verifyStark (calls.take n)).chain.length ≤
      2 ^ 64) :
    (∀ n, Linked hashes.sha3 ((Blockchain.new genesis state).run hashes sphincs verifyStark (calls.take n)).chain) ↔
      ∀ n call block, calls[n]? = some call →
        call.added hashes sphincs verifyStark
          ((Blockchain.new genesis state).run hashes sphincs verifyStark (calls.take n)) = some block →
        block.index.toNat =
          ((Blockchain.new genesis state).run hashes sphincs verifyStark (calls.take n)).chain.length := by
  have next {n : Nat} {call : ChainCall} (here : calls[n]? = some call) :
      (new genesis state).run hashes sphincs verifyStark (calls.take (n + 1)) =
        call.apply hashes sphincs verifyStark
          ((new genesis state).run hashes sphincs verifyStark (calls.take n)) := Runs.foldl_take_succ here
  constructor
  · intro linked n call block here added
    have after := linked (n + 1)
    rw [next here] at after
    exact (linked_added_iff (linked n) added).2.mp after
  · intro fits n
    refine @Runs.foldl_take_keeps _ _ _ _ _ (fun ledger : Blockchain => Linked hashes.sha3 ledger.chain) 0 n (Nat.zero_le n)
      (linked_singleton zero) fun k call _ _ here linked => ?_
    have capacity := bounded (k + 1)
    rw [next here] at capacity
    cases added : call.added hashes sphincs verifyStark
        ((new genesis state).run hashes sphincs verifyStark (calls.take k)) with
    | some block => exact (linked_added_iff linked added).2.mpr (fits k call block here added)
    | none =>
      refine linked_not_added linked added capacity fun candidate front offered found shared => ?_
      have listed := mem_of_getElem? here
      have digests := Vector.toList_inj.mp (Hex.encode_injective shared)
      have known : front = genesis ∨ ∃ call ∈ calls, call.candidate = some front := by
        rcases front_run rfl found with first | ⟨earlier, taken, adopted⟩
        · exact .inl first
        · exact .inr ⟨earlier, mem_of_mem_take taken, adopted⟩
      have headers := injective ⟨candidate, .inr ⟨call, listed, offered⟩, rfl⟩ ⟨front, known, rfl⟩ digests
      exact (BlockHeader.canonicalHashPreimage_inj hashes.sha3 headers).index

/-- Where no fork is offered, only the header of the genesis block is hashed. -/
theorem frontInputs_subsingleton (unforked : ∀ call ∈ calls, call.candidate = none) :
    (frontInputs hashes genesis calls).Subsingleton := by
  have only {block : Block} (known : block = genesis ∨ ∃ call ∈ calls, call.candidate = some block) :
      block = genesis := by
    rcases known with first | ⟨call, listed, offered⟩
    · exact first
    · rw [unforked call listed] at offered
      cases offered
  rintro input ⟨left, known, shown⟩ input' ⟨right, known', shown'⟩
  rw [shown, shown', only known, only known']

end Runs

def blankHash : Bytes → Hash32 := fun _ => Vector.replicate 32 0
def blankHashes : Hashes := ⟨blankHash, blankHash, blankHash⟩

def childKey : Bytes := List.replicate sphincsPkLen 0

def childInputs : ExtendedBlockPublicInputs where
  blockIndex := 1
  epochId := 0
  txCount := 0
  blocksPerEpoch := 100
  merkleRootHash := Vector.replicate 32 0
  validatorPkHash := Vector.replicate 32 0
  skSeedHash := Vector.replicate 32 0
  blockHash := Vector.replicate 32 0
  smtRoot := Vector.replicate 32 0
  sigCommitmentRoot := Vector.replicate 32 0
  sigCount := 0
  batchSeqId := 1

/-- An empty block behind the genesis block, with a signature and a proof. -/
def childBlock : Block :=
  { Block.new blankHash 8 1 [] ((Block.genesis blankHash).computeHash blankHash) with
    protocolVersion := 4
    validatorSignature := childKey ++ List.replicate sphincsSigLen 0
    zkProof := extendedStarkMagic ++ (Block.encodeExtPubInputs childInputs ++ [0]) }

/-- An empty block that passes its checks under the blank digest, the scheme
that accepts everything and a verifier that trusts every proof. -/
structure Block.Passes (block : Block) (inputs : ExtendedBlockPublicInputs) : Prop where
  empty : block.transactions = []
  bare : block.merkleRoot = ""
  uncommitted : block.sigCommitmentRoot = Vector.replicate 32 0
  version : ¬5 ≤ block.protocolVersion
  signature : block.validatorSignature = childKey ++ List.replicate sphincsSigLen 0
  proof : block.zkProof = extendedStarkMagic ++ (Block.encodeExtPubInputs inputs ++ [0])
  agrees : block.matchesPublicInputs blankHash inputs = true
  dated : block.timestamp ≠ 0

section Passes
variable {block : Block} {inputs : ExtendedBlockPublicInputs} (passes : block.Passes inputs)
include passes

theorem Block.Passes.size : block.validatorSignature.length = validatorSigLen := by
  rw [passes.signature, length_append, childKey, length_replicate, length_replicate]
  rfl

theorem Block.Passes.signer : block.validatorSignature.take sphincsPkLen = childKey := by
  rw [passes.signature]
  exact take_left' length_replicate

theorem Block.Passes.signed : block.verifySignature blankHash sizedSphincs childKey = .ok true := by
  have rest : block.validatorSignature.drop sphincsPkLen = replicate sphincsSigLen 0 := by
    rw [passes.signature]
    exact drop_left' length_replicate
  rw [verifySignature_of_parses passes.size passes.signer]
  · rfl
  · exact sizedSphincs_publicKey length_replicate
  · rw [rest]
    exact sizedSphincs_detachedSignature length_replicate.le

theorem Block.Passes.proved : block.verifyZkp blankHash (fun _ _ => true) = true := by
  have present : ¬block.zkProof.isEmpty = true := by
    rw [passes.proof]
    exact Bool.false_ne_true
  have tagged : extendedStarkMagic.isPrefixOf block.zkProof = true := by
    rw [passes.proof, isPrefixOf_iff_prefix]
    exact prefix_append ..
  rw [verifyZkp, if_neg present, if_neg passes.version, tagged, passes.proof,
    verifyExtendedStarkZkp_encoded (cons_ne_nil _ _), passes.agrees]
  rfl

theorem Block.Passes.validateBlock :
    BlockValidator.validateBlock blankHashes sizedSphincs (fun _ _ => true) block childKey = true := by
  have root : BlockValidator.verifyMerkleRoot blankHashes block = true := by
    rw [BlockValidator.verifyMerkleRoot, passes.empty, passes.bare]
    simp [calculateMerkleRoot, merkleTop]
  have signed : block.verifySignature blankHashes.sha3 sizedSphincs childKey = .ok true := passes.signed
  have proved : block.verifyZkp blankHashes.sha3 (fun _ _ => true) = true := passes.proved
  have commitment : BlockValidator.verifySigCommitmentRoot blankHashes block = true := by
    simp [BlockValidator.verifySigCommitmentRoot, passes.empty, passes.uncommitted]
  simp [BlockValidator.validateBlock, root, signed, proved, passes.empty, commitment,
    BlockValidator.verifyTransactionSignatures]

theorem Block.Passes.aiValidate : BlockValidator.aiValidate block = true := by
  rw [BlockValidator.aiValidate, if_neg passes.dated]
  simp [passes.empty, passes.bare]

end Passes

theorem childBlock_passes : childBlock.Passes childInputs where
  empty := rfl
  bare := by
    change calculateMerkleRoot blankHash [] = ""
    simp [calculateMerkleRoot, merkleTop]
  uncommitted := rfl
  version := (by decide : ¬(5 : U32) ≤ 4)
  signature := rfl
  proof := rfl
  agrees := rfl
  dated := (by decide : (8 : U64) ≠ 0)

theorem childBlock_valid : validateFullBlock blankHashes sizedSphincs (fun _ _ => true)
    (genesis blankHash) childBlock childKey = true := by
  have chain : validateChainId (genesis blankHash) childBlock = true := rfl
  have link : validateBlockLink blankHashes (genesis blankHash) childBlock = true :=
    beq_self_eq_true _
  have network : networkValidate childBlock = true := rfl
  simp [validateFullBlock, chain, childBlock_passes.validateBlock, link, network, childBlock_passes.aiValidate]

theorem childBlock_added :
    ((new (genesis blankHash) .new).addBlock blankHashes sizedSphincs (fun _ _ => true) childBlock childKey).1 = true ∧
    ((new (genesis blankHash) .new).addBlock blankHashes sizedSphincs (fun _ _ => true) childBlock
      childKey).2.chain = [genesis blankHash, childBlock] := by
  have last : (new (genesis blankHash) .new).chain.getLast? = some (genesis blankHash) := rfl
  simp only [addBlock, addBlockInner, last, childBlock_valid, Bool.true_eq_false, and_false, if_false]
  exact ⟨rfl, rfl⟩

/-- The child block is added behind the genesis block, and the two are
linked. -/
theorem childBlock_linked :
    ((new (genesis blankHash) .new).addBlock blankHashes sizedSphincs (fun _ _ => true) childBlock
      childKey).1 = true ∧
    ∀ n, Linked blankHashes.sha3 ((new (genesis blankHash) .new).run blankHashes sizedSphincs
      (fun _ _ => true) ([.addBlock childBlock childKey].take n)).chain := by
  refine ⟨childBlock_added.1, (chain_linked_iff rfl ?_ fun n => ?_).mpr fun n call block here added => ?_⟩
  · exact (frontInputs_subsingleton fun call listed => by rw [mem_singleton.mp listed]; rfl).injOn _
  · cases n with
    | zero =>
      decide
    | succ n =>
      rw [take_succ_cons, take_nil, run, foldl_cons, foldl_nil, ChainCall.apply, childBlock_added.2]
      decide
  · cases n with
    | zero =>
      obtain rfl : ChainCall.addBlock childBlock childKey = call := some.inj here
      obtain rfl : childBlock = block := by
        simpa [ChainCall.added, run, childBlock_added.1] using added
      rfl
    | succ n => cases here

/-- Behind the genesis block, that of any other chain is accepted as well:
nothing is checked of an empty block that claims index 0. -/
theorem second_genesis_accepted : ∃ other : (Bytes → Hash32) → Block,
    ∀ (hashes : Hashes) (sphincs : Sphincs) (verifyStark : VerifyStark) (publicKey : Bytes),
      (genesis hashes.sha3).index = 0 ∧
      ((new (genesis hashes.sha3) .new).addBlock hashes sphincs verifyStark (other hashes.sha3)
        publicKey).1 = true ∧
      ((new (genesis hashes.sha3) .new).addBlock hashes sphincs verifyStark (other hashes.sha3)
        publicKey).2.chain = [genesis hashes.sha3, other hashes.sha3] ∧
      (other hashes.sha3).index = 0 ∧ (other hashes.sha3).chainId ≠ (genesis hashes.sha3).chainId ∧
      ¬Linked hashes.sha3 [genesis hashes.sha3, other hashes.sha3] := by
  refine ⟨fun sha3 => genesisForChain sha3 "other", fun hashes sphincs verifyStark publicKey =>
    ⟨rfl, rfl, rfl, rfl, ?_, fun linked => ?_⟩⟩
  · change "other" ≠ defaultChainId
    decide
  · have index : (0 : U64).toNat = 1 := linked.index 1 _ rfl
    cases index

end Bleep
