import Bleep.Core.ChainLinks
import Bleep.Library.Ledger

namespace Bleep
open HashTable BlockValidator Block Ledger List BitVec Finsupp

def Transaction.payment (tx : Transaction) : String × String × U64 := (tx.sender, tx.receiver, tx.amount)

open Transaction

def Block.payments (block : Block) : List (String × String × U64) := block.transactions.map payment

namespace BlockchainState

/-- What the accounts of the table hold together. -/
def total (core : BlockchainState) : Nat := ((pairs core.balances).map fun entry => entry.2.toNat).sum

/-- The balances are those of a ledger whose total fits in 64 bits. -/
def Backed (core : BlockchainState) : Prop :=
  ∃ ledger : String →₀ ℕ, (∀ address, (core.balanceOf address).toNat = ledger address) ∧ Ledger.total ledger < 2 ^ 64

variable {core core' after : BlockchainState} {tx tx' : Transaction} {txs : List Transaction}

theorem backed_of_total (small : core.total < 2 ^ 64) : core.Backed := by
  have weigh (address : String) : (core.balanceOf address).toNat =
      ((core.balances.lookup address).map fun balance => balance.toNat).getD 0 := by
    unfold balanceOf
    cases core.balances.lookup address <;> rfl
  refine ⟨onFinset core.balances.keys.toFinset (fun address => (core.balanceOf address).toNat) ?_, fun _ => rfl, ?_⟩
  · intro address nonzero
    rw [mem_toFinset]
    by_contra absent
    rw [weigh, AList.lookup_eq_none.mpr (mt AList.mem_keys.mp absent)] at nonzero
    exact nonzero rfl
  · rw [total_eq_sum_pairs weigh]
    exact small

theorem applyTransaction_ok (done : core.applyTransaction tx = (.ok (), after)) : Admits core tx ∧
    ∀ address, after.balanceOf address =
      if address = tx.receiver then core.balanceOf tx.receiver + tx.amount
      else if address = tx.sender then core.balanceOf tx.sender - tx.amount
      else core.balanceOf address := by
  rcases core.applyTransaction_cases tx with ⟨admits, result, applied, balances⟩ | ⟨-, error, result, failed⟩
  · rw [applied] at done
    cases done
    exact ⟨admits, balances⟩
  · rw [failed] at done
    cases done

theorem applyTransaction_congr (same : core.balanceOf = core'.balanceOf)
    (done : core.applyTransaction tx = (.ok (), after)) :
    ∃ after', core'.applyTransaction tx = (.ok (), after') ∧ after.balanceOf = after'.balanceOf := by
  obtain ⟨admits, balances⟩ := applyTransaction_ok done
  rcases core'.applyTransaction_cases tx with ⟨-, after', applied, balances'⟩ | ⟨refused, -⟩
  · refine ⟨after', applied, funext fun address => ?_⟩
    rw [balances, balances', same]
  · exact absurd ⟨admits.distinct, admits.positive, same ▸ admits.covered⟩ refused

theorem applyTransaction_of_payment (same : tx.payment = tx'.payment) (core : BlockchainState) :
    core.applyTransaction tx = core.applyTransaction tx' := by
  simp only [payment, Prod.mk.injEq] at same
  obtain ⟨sender, receiver, amount⟩ := same
  rw [applyTransaction, applyTransaction, sender, receiver, amount]

/-- A receiver without an entry has nothing to lose. -/
theorem balanceOf_revertTransaction (core : BlockchainState) (tx : Transaction) (address : String) :
    (core.revertTransaction tx).balanceOf address =
      if address = tx.receiver then
        Words.saturatingSub ((core.credit tx.sender tx.amount).balanceOf tx.receiver) tx.amount
      else (core.credit tx.sender tx.amount).balanceOf address := by
  rw [revertTransaction]
  split
  · rename_i unknown
    have nothing : (core.credit tx.sender tx.amount).balanceOf tx.receiver = 0 := by
      rw [balanceOf, unknown]
      rfl
    split
    · rename_i here
      rw [here, nothing, Words.saturatingSub_eq_self.mpr (.inr rfl)]
    · rfl
  · rename_i balance known
    have value : (core.credit tx.sender tx.amount).balanceOf tx.receiver = balance := by
      rw [balanceOf, known]
      rfl
    rw [balanceOf_insert, value]

/-- The receiver's new balance is below the total, so the addition does not
wrap. -/
theorem Backed.toNat_credited (backed : core.Backed) (admits : core.Admits tx) :
    (core.balanceOf tx.receiver + tx.amount).toNat = (core.balanceOf tx.receiver).toNat + tx.amount.toNat := by
  obtain ⟨ledger, amounts, small⟩ := backed
  have covered := admits.covered
  rw [amounts] at covered
  have kept := total_transfer admits.distinct covered
  have bound := le_total (transfer ledger tx.sender tx.receiver tx.amount.toNat) tx.receiver
  rw [kept, transfer, update_apply, if_pos rfl, ← amounts] at bound
  rw [toNat_add, Nat.mod_eq_of_lt (by omega)]

/-- Reverting a transaction that was applied gives back the balances, since
nothing wraps. -/
theorem Backed.revert (backed : core.Backed) (done : core.applyTransaction tx = (.ok (), after)) :
    after.Backed ∧
      ∀ state : BlockchainState, state.balanceOf = after.balanceOf →
        (state.revertTransaction tx).balanceOf = core.balanceOf := by
  obtain ⟨admits, balances⟩ := applyTransaction_ok done
  have credited := backed.toNat_credited admits
  obtain ⟨ledger, amounts, small⟩ := backed
  have covered := admits.covered
  rw [amounts] at covered
  have kept := total_transfer admits.distinct covered
  constructor
  · refine ⟨transfer ledger tx.sender tx.receiver tx.amount.toNat, fun address => ?_, kept ▸ small⟩
    rw [balances, transfer, update_apply, update_apply]
    split
    · rw [credited, amounts]
    · split
      · rw [toNat_sub_of_le (le_def.mpr admits.covered), amounts]
      · exact amounts address
  · intro state same
    funext address
    rw [balanceOf_revertTransaction, credit, balanceOf_insert, balanceOf_insert, if_neg (Ne.symm admits.distinct), same,
      balances, balances, balances, if_pos rfl, if_neg admits.distinct, if_pos rfl]
    split
    · rename_i here
      apply eq_of_toNat_eq
      rw [Words.toNat_saturatingSub, credited, Nat.add_sub_cancel, here]
    · split
      · rename_i here
        rw [sub_add_cancel, here]
      · rfl

theorem Backed.revertAll (backed : core.Backed)
    (done : core.applyTransactions txs = (.ok (), after)) :
    after.Backed ∧
      ∀ state : BlockchainState, state.balanceOf = after.balanceOf →
        (txs.reverse.foldl revertTransaction state).balanceOf = core.balanceOf := by
  induction txs generalizing core with
  | nil =>
    cases done
    exact ⟨backed, fun state same => same⟩
  | cons tx rest ih =>
    rw [applyTransactions] at done
    split at done
    · cases done
    rename_i mid applied
    obtain ⟨backedMid, undone⟩ := backed.revert applied
    obtain ⟨backedAfter, others⟩ := ih backedMid done
    refine ⟨backedAfter, fun state same => ?_⟩
    rw [reverse_cons, foldl_append]
    exact undone _ (others state same)

theorem applyTransactions_congr {txs'} (same : core.balanceOf = core'.balanceOf)
    (alike : txs.map payment = txs'.map payment) (done : core.applyTransactions txs = (.ok (), after)) :
    ∃ after', core'.applyTransactions txs' = (.ok (), after') ∧ after.balanceOf = after'.balanceOf := by
  induction txs generalizing core core' txs' with
  | nil =>
    cases done
    rw [map_nil, eq_comm, map_eq_nil_iff] at alike
    subst alike
    exact ⟨core', rfl, same⟩
  | cons tx rest ih =>
    obtain ⟨tx', rest', rfl, payment, payments⟩ := map_eq_cons_iff.mp alike.symm
    rw [applyTransactions] at done
    split at done
    · cases done
    rename_i mid applied
    obtain ⟨mid', applied', sameMid⟩ := applyTransaction_congr same applied
    obtain ⟨after', others, sameAfter⟩ := ih sameMid payments.symm done
    refine ⟨after', ?_, sameAfter⟩
    rw [applyTransactions, applyTransaction_of_payment payment, applied']
    exact others

end BlockchainState

namespace Blockchain
open BlockchainState

variable {core core' after : BlockchainState} {blocks : List Block}

theorem applyFork_cons {block rest} :
    applyFork core (block :: rest) = .ok after ↔
      ∃ mid, core.applyBlock block = (.ok (), mid) ∧ applyFork mid rest = .ok after := by
  rw [applyFork]
  split
  · rename_i failed
    rw [failed]
    constructor
    · intro done
      cases done
    · rintro ⟨mid, applied, -⟩
      cases applied
  · rename_i mid applied
    rw [applied]
    constructor
    · intro done
      exact ⟨mid, rfl, done⟩
    · rintro ⟨other, same, done⟩
      cases same
      exact done

theorem applyFork_append {more} :
    applyFork core (blocks ++ more) = .ok after ↔
      ∃ mid, applyFork core blocks = .ok mid ∧ applyFork mid more = .ok after := by
  induction blocks generalizing core with
  | nil => simp [applyFork]
  | cons block rest ih =>
    simp only [List.cons_append, applyFork_cons, ih]
    tauto

theorem applyFork_congr {blocks'} (same : core.balanceOf = core'.balanceOf)
    (alike : blocks.map payments = blocks'.map payments) (done : applyFork core blocks = .ok after) :
    ∃ after', applyFork core' blocks' = .ok after' ∧ after.balanceOf = after'.balanceOf := by
  induction blocks generalizing core core' blocks' with
  | nil =>
    cases done
    rw [map_nil, eq_comm, map_eq_nil_iff] at alike
    subst alike
    exact ⟨core', rfl, same⟩
  | cons block rest ih =>
    obtain ⟨block', rest', rfl, payments, others⟩ := map_eq_cons_iff.mp alike.symm
    obtain ⟨mid, applied, done⟩ := applyFork_cons.mp done
    obtain ⟨mid', applied', sameMid⟩ := applyTransactions_congr same payments.symm (applyBlock_ok.mp applied)
    obtain ⟨after', applied'', sameAfter⟩ := ih sameMid others.symm done
    exact ⟨after', applyFork_cons.mpr ⟨mid', applyBlock_ok.mpr applied', applied''⟩, sameAfter⟩

theorem revertBlocks (backed : core.Backed) (done : applyFork core blocks = .ok after) :
    after.Backed ∧
      ∀ state : BlockchainState, state.balanceOf = after.balanceOf →
        (blocks.reverse.foldl BlockchainState.revertBlock state).balanceOf = core.balanceOf := by
  induction blocks generalizing core with
  | nil =>
    cases done
    exact ⟨backed, fun state same => same⟩
  | cons block rest ih =>
    obtain ⟨mid, applied, done⟩ := applyFork_cons.mp done
    obtain ⟨backedMid, undone⟩ := backed.revertAll (applyBlock_ok.mp applied)
    obtain ⟨backedAfter, others⟩ := ih backedMid done
    refine ⟨backedAfter, fun state same => ?_⟩
    rw [reverse_cons, foldl_append]
    exact undone _ (others state same)

/-- The balances are those of applying the blocks in order to the genesis
balances. -/
def Replays (genesis : BlockchainState) (blocks : List Block) (state : BlockchainState) : Prop :=
  ∃ replayed, applyFork genesis blocks = .ok replayed ∧ state.balanceOf = replayed.balanceOf

section Calls
variable {hashes : Hashes} {sphincs : Sphincs} {verifyStark : VerifyStark} {ledger : Blockchain}
  {newChain : List Block} {validatorSets : HashMap U64 (List Bytes)} {genesis : BlockchainState}

/-- Blocks behind the first with the same hash and the same place hold the
same payments. -/
def SamePayments (hashes : Hashes) (chain newChain : List Block) : Prop :=
  ∀ i current candidate, chain[i + 1]? = some current → newChain[i + 1]? = some candidate →
    current.computeHash hashes.sha3 = candidate.computeHash hashes.sha3 → current.payments = candidate.payments

theorem take_payments {chain : List Block} {n : Nat} (committed : SamePayments hashes chain newChain)
    (common : ∀ i < n + 1, ∃ current candidate, chain[i]? = some current ∧ newChain[i]? = some candidate ∧
      current.computeHash hashes.sha3 = candidate.computeHash hashes.sha3) :
    (chain.tail.take n).map payments = (newChain.tail.take n).map payments := by
  refine ext_getElem? fun i => ?_
  rw [getElem?_map, getElem?_map, getElem?_take, getElem?_take]
  split
  · rename_i inside
    obtain ⟨current, candidate, here, there, same⟩ := common (i + 1) (by omega)
    rw [getElem?_tail, getElem?_tail, here, there]
    exact congrArg some (committed i current candidate here there same)
  · rfl

theorem drop_succ_eq (chain : List Block) (n : Nat) : chain.drop (n + 1) = chain.tail.drop n := by
  rw [drop_tail]

end Calls

section Forged
variable {hashes : Hashes} {sphincs : Sphincs} {verifyStark : VerifyStark}
  {validatorSets : HashMap U64 (List Bytes)}

def payment : Transaction := ⟨defaultChainId, "alice", "bob", 4, 7, 0, []⟩

def genesisTable : BlockchainState := BlockchainState.new.credit "alice" 10

/-- The child block's header over a payment that its Merkle root does not
stand for. -/
def forgedBlock : Block := { childBlock with transactions := [payment] }

def grandchildInputs : ExtendedBlockPublicInputs := { childInputs with blockIndex := 2 }

def grandchildBlock : Block := { childBlock with
  index := 2
  zkProof := extendedStarkMagic ++ (Block.encodeExtPubInputs grandchildInputs ++ [0]) }

def childFork : List Block := [Block.genesis blankHash, childBlock, grandchildBlock]

def childValidators : HashMap U64 (List Bytes) := AList.singleton 0 [childKey]

theorem grandchildBlock_passes : grandchildBlock.Passes grandchildInputs :=
  { childBlock_passes with proof := rfl, agrees := rfl }

theorem validated_behind {previous block inputs} (passes : block.Passes inputs)
    (chain : validateChainId previous block = true)
    (link : validateBlockLink blankHashes previous block = true) (network : networkValidate block = true) :
    validateFullBlockWithValidatorSet blankHashes sizedSphincs (fun _ _ => true) previous block
      [childKey] = true := by
  have long : ¬block.validatorSignature.length < sphincsPkLen := by
    rw [passes.size]
    decide
  have registered : validateBlockWithValidatorSet blankHashes sizedSphincs (fun _ _ => true) block
      [childKey] = true := by
    simp [validateBlockWithValidatorSet, long, passes.signer, passes.validateBlock]
  simp [validateFullBlockWithValidatorSet, chain, registered, link, network, passes.aiValidate]

theorem childFork_checked : checkFork blankHashes sizedSphincs (fun _ _ => true) childValidators
    (genesis blankHash) [childBlock, grandchildBlock] = .ok () := by
  have first := @validated_behind (genesis blankHash) _ _ childBlock_passes rfl (beq_self_eq_true _) rfl
  have second := @validated_behind childBlock _ _ grandchildBlock_passes rfl (beq_self_eq_true _) rfl
  have known : childValidators.lookup childBlock.epochId = some [childKey] := rfl
  have known' : childValidators.lookup grandchildBlock.epochId = some [childKey] := rfl
  have index : childBlock.index = Words.saturatingAdd (genesis blankHash).index 1 := rfl
  have index' : grandchildBlock.index = Words.saturatingAdd childBlock.index 1 := rfl
  simp only [checkFork, known, known', index, index', first, second]
  rfl

/-- Any second block with the child block's header is taken for it. -/
theorem childFork_adopted {block} (header : block.toBlockHeader = childBlock.toBlockHeader)
    (state : BlockchainState) :
    (Blockchain.mk [genesis blankHash, block] state).handleFork blankHashes sizedSphincs (fun _ _ => true)
      childFork childValidators = (.ok (), ⟨childFork, state⟩) := by
  have same : block.computeHash blankHashes.sha3 = childBlock.computeHash blankHashes.sha3 := by
    rw [computeHash, computeHash, header]
  have applied : applyFork state [grandchildBlock] = .ok state := rfl
  simp [handleFork, childFork, childFork_checked, same, applied]

theorem genesisTable_small : genesisTable.total < 2 ^ 64 := (by decide : 10 < 2 ^ 64)

theorem childFork_replay {state} :
    Replays genesisTable childFork.tail state ↔ state.balanceOf = genesisTable.balanceOf := by
  have replay : applyFork genesisTable childFork.tail = .ok genesisTable := rfl
  constructor
  · rintro ⟨replayed, applied, shown⟩
    cases applied
    exact shown
  · intro shown
    exact ⟨genesisTable, replay, shown⟩

theorem childFork_samePayments : SamePayments blankHashes [genesis blankHash, childBlock] childFork := by
  intro i current candidate here there _
  cases i with
  | zero =>
    cases here
    cases there
    rfl
  | succ i => cases here

end Forged

end Blockchain

end Bleep
