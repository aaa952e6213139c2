import Bleep.Block
import Bleep.Library.HashTable

namespace Bleep
open HashTable

structure BlockchainState where
  balances : HashMap String U64

namespace BlockchainState

def new : BlockchainState := ⟨∅⟩

variable (core : BlockchainState)

variable (address : String)

def balanceOf : U64 := (core.balances.lookup address).getD 0

/-- The addition of a release build, which wraps. -/
def credit (amount : U64) : BlockchainState :=
  { core with balances := core.balances.insert address (core.balanceOf address + amount) }

/-- A failed debit still leaves an entry for the address. -/
def debit (amount : U64) : Except String Unit × BlockchainState :=
  let balance := core.balanceOf address
  if balance < amount then
    (.error s!"Insufficient balance for {address}: has {balance.toNat}, needs {amount.toNat}",
      { core with balances := core.balances.insert address balance })
  else (.ok (), { core with balances := core.balances.insert address (balance - amount) })

def applyTransaction (tx : Transaction) : Except String Unit × BlockchainState :=
  if tx.sender = tx.receiver then (.error s!"Self-transfer rejected for {tx.sender}", core)
  else if tx.amount = 0 then (.error "Zero-amount transaction rejected", core)
  else
    match core.debit tx.sender tx.amount with
    | (.error e, core) => (.error e, core)
    | (.ok (), core) => (.ok (), core.credit tx.receiver tx.amount)

/-- The loop of `apply_block`. -/
def applyTransactions (core : BlockchainState) : List Transaction → Except String Unit × BlockchainState
  | [] => (.ok (), core)
  | tx :: rest =>
    match core.applyTransaction tx with
    | (.error e, core) => (.error e, core)
    | (.ok (), core) => core.applyTransactions rest

def applyBlock (block : Block) : Except String Unit × BlockchainState :=
  let snapshot := core.balances
  match core.applyTransactions block.transactions with
  | (.error e, core) => (.error e, { core with balances := snapshot })
  | (.ok (), core) => (.ok (), core)

/-- One turn of `revert_block`: the receiver is only debited if it is known. -/
def revertTransaction (tx : Transaction) : BlockchainState :=
  let credited := core.credit tx.sender tx.amount
  match credited.balances.lookup tx.receiver with
  | none => credited
  | some balance =>
    { credited with balances := credited.balances.insert tx.receiver (Words.saturatingSub balance tx.amount) }

def revertBlock (block : Block) : BlockchainState :=
  block.transactions.reverse.foldl revertTransaction core

variable {core after : BlockchainState} {tx : Transaction}

theorem balanceOf_insert (core : BlockchainState) (address other : String) (balance : U64) :
    ({ core with balances := core.balances.insert address balance } : BlockchainState).balanceOf other =
      if other = address then balance else core.balanceOf other := by
  rw [balanceOf, HashTable.lookup_insert_eq, apply_ite (Option.getD · 0)]
  rfl

/-- What `apply_transaction` checks. -/
structure Admits (core : BlockchainState) (tx : Transaction) : Prop where
  distinct : tx.sender ≠ tx.receiver
  positive : tx.amount ≠ 0
  covered : tx.amount.toNat ≤ (core.balanceOf tx.sender).toNat

theorem applyTransaction_cases (core : BlockchainState) (tx : Transaction) :
    (Admits core tx ∧ ∃ after, core.applyTransaction tx = (.ok (), after) ∧
      ∀ address, after.balanceOf address =
        if address = tx.receiver then core.balanceOf tx.receiver + tx.amount
        else if address = tx.sender then core.balanceOf tx.sender - tx.amount
        else core.balanceOf address) ∨
    (¬Admits core tx ∧ ∃ e after, core.applyTransaction tx = (.error e, after)) := by
  unfold applyTransaction
  split
  · rename_i same
    exact .inr ⟨fun admits => admits.distinct same, _, _, rfl⟩
  · rename_i distinct
    split
    · rename_i zero
      exact .inr ⟨fun admits => admits.positive zero, _, _, rfl⟩
    · rename_i positive
      unfold debit
      by_cases short : core.balanceOf tx.sender < tx.amount
      · simp only [if_pos short]
        exact .inr ⟨fun admits => Nat.not_lt.mpr admits.covered short, _, _, rfl⟩
      · simp only [if_neg short]
        refine .inl ⟨⟨distinct, positive, Nat.not_lt.mp short⟩, _, rfl, fun address => ?_⟩
        rw [credit, balanceOf_insert, balanceOf_insert, balanceOf_insert, if_neg (Ne.symm distinct)]

theorem applyBlock_ok {block} :
    core.applyBlock block = (.ok (), after) ↔ core.applyTransactions block.transactions = (.ok (), after) := by
  unfold applyBlock
  split
  · rename_i failed
    rw [failed]
    exact ⟨fun done => (by cases done), fun done => (by cases done)⟩
  · rename_i applied
    rw [applied]

end BlockchainState

end Bleep
