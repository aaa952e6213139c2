import Bleep.Core.BlockchainState
import Bleep.State.Sessions

namespace Bleep
open HashTable Words StateManager Transaction Ledger BitVec BlockchainState

def Transaction.toCanonicalTransfer (tx : Transaction) : CanonicalTransfer :=
  ⟨tx.sender, tx.receiver, tx.amount, tx.nonce⟩

/-- The coordinates the inbound handler passes for a block. -/
def Block.inboundArgs (sha3 : Bytes → Hash32) (block : Block) (body : Except String Bytes)
    (chainId genesisHash : String) : BlockArgs :=
  { body := body
    index := block.index
    blockHash := block.computeHash sha3
    previousHash := block.previousHash
    chainId := chainId
    genesisHash := genesisHash }

/-- The state transition of the inbound handler. -/
def StateManager.applyInboundBlock (codec : Codec) (hashes : Hashes) (outside : Outside) (state : StateManager)
    (block : Block) (body : Except String Bytes) (chainId genesisHash : String) :
    Except StateError Unit × StateManager :=
  state.applyCanonicalBlock codec hashes.blake3 outside (block.inboundArgs hashes.sha3 body chainId genesisHash)
    block.shardStateRoot (block.transactions.map Transaction.toCanonicalTransfer)

/-- The two ledgers show the same balances, which sum below 2^64. -/
structure LedgersAgree (codec : Codec) (core : BlockchainState) (state : StateManager) : Prop where
  same : ∀ address, (core.balanceOf address).toNat = (state.getBalance codec address).toNat
  small : Ledger.total (state.ledger codec) < 2 ^ 64

/-- Each transaction carries the nonce its sender has by then. -/
def CarryNextNonces (nonces : String → Nat) : List Transaction → Prop
  | [] => True
  | tx :: rest =>
    tx.nonce.toNat = nonces tx.sender ∧ CarryNextNonces (Function.update nonces tx.sender (nonces tx.sender + 1)) rest

variable {codec : Codec} {core after : BlockchainState} {state mid : StateManager} {tx : Transaction}
  {txs : List Transaction}

theorem toNat_wide (amount : U64) : (amount.setWidth 128).toNat = amount.toNat :=
  toNat_setWidth_of_le (by decide)

theorem applyTransfers_map_cons (state : StateManager) (tx : Transaction) (rest : List Transaction) :
    state.applyTransfers codec ((tx :: rest).map toCanonicalTransfer) =
      if state.Admits codec tx.sender tx.receiver (tx.amount.setWidth 128) tx.nonce then
        (state.transferred codec tx.sender tx.receiver (tx.amount.setWidth 128) tx.nonce).applyTransfers codec
          (rest.map toCanonicalTransfer)
      else (some tx.sender, state) :=
  applyTransfers_cons state tx.toCanonicalTransfer _

theorem LedgersAgree.admits_iff (agree : LedgersAgree codec core state) :
    state.Admits codec tx.sender tx.receiver (tx.amount.setWidth 128) tx.nonce ∧ tx.sender ≠ tx.receiver ↔
      core.Admits tx ∧ tx.nonce = state.getNonce codec tx.sender ∧ tx.nonce.toNat + 1 < 2 ^ 64 := by
  have zero : tx.amount.setWidth 128 = 0 ↔ tx.amount = 0 := by
    rw [← toNat_inj, toNat_wide, ← toNat_inj]
    rfl
  constructor
  · rintro ⟨⟨next, room, positive, covered, -⟩, distinct⟩
    refine ⟨⟨distinct, mt zero.mpr positive, ?_⟩, next, room⟩
    rwa [agree.same, ← toNat_wide]
  · rintro ⟨⟨distinct, positive, covered⟩, next, room⟩
    have bound := le_total (state.ledger codec) tx.receiver
    have small := agree.small
    refine ⟨⟨next, room, mt zero.mp positive, ?_, ?_⟩, distinct⟩
    · rwa [toNat_wide, ← agree.same]
    · rw [ledger_apply] at bound
      rw [toNat_wide]
      omega

/-- A transaction both ledgers admit is applied to both alike. -/
theorem LedgersAgree.step (agree : LedgersAgree codec core state)
    (admits : state.Admits codec tx.sender tx.receiver (tx.amount.setWidth 128) tx.nonce)
    (distinct : tx.sender ≠ tx.receiver) :
    ∃ after, core.applyTransaction tx = (.ok (), after) ∧
      LedgersAgree codec after
        (state.transferred codec tx.sender tx.receiver (tx.amount.setWidth 128) tx.nonce) := by
  have accepted := (agree.admits_iff.mp ⟨admits, distinct⟩).1
  have moved := ledger_transferred admits
  have kept : total (transfer (state.ledger codec) tx.sender tx.receiver _) = _ :=
    total_transfer distinct admits.covered
  rw [← moved] at kept
  rcases core.applyTransaction_cases tx with ⟨-, after, applied, balances⟩ | ⟨refused, -⟩
  · refine ⟨after, applied, fun address => ?_, kept ▸ agree.small⟩
    rw [balances, getBalance_transferred]
    have atReceiver := le_total
      ((state.transferred codec tx.sender tx.receiver (tx.amount.setWidth 128) tx.nonce).ledger codec) tx.receiver
    have small := agree.small
    rw [kept, ledger_apply, getBalance_transferred, if_pos rfl] at atReceiver
    split
    · -- the credited balance is below the total, so the narrow addition does not wrap
      rw [toNat_add, Nat.mod_eq_of_lt admits.fits, toNat_wide, ← agree.same] at atReceiver
      rw [toNat_add, toNat_add, Nat.mod_eq_of_lt admits.fits, toNat_wide, agree.same, Nat.mod_eq_of_lt]
      rw [← agree.same]
      omega
    · split
      · rw [toNat_sub_of_le (le_def.mpr accepted.covered),
          toNat_sub_of_le (le_def.mpr admits.covered), toNat_wide, agree.same]
      · exact agree.same address
  · exact absurd accepted refused

theorem LedgersAgree.applyTransactions (agree : LedgersAgree codec core state)
    (loop : state.applyTransfers codec (txs.map toCanonicalTransfer) = (none, mid))
    (distinct : ∀ tx ∈ txs, tx.sender ≠ tx.receiver) :
    ∃ after, core.applyTransactions txs = (.ok (), after) ∧ LedgersAgree codec after mid := by
  induction txs generalizing core state with
  | nil =>
    cases loop
    exact ⟨core, rfl, agree⟩
  | cons tx rest ih =>
    obtain ⟨here, later⟩ := List.forall_mem_cons.mp distinct
    rw [applyTransfers_map_cons] at loop
    split at loop
    · rename_i admits
      obtain ⟨next, applied, agreeNext⟩ := agree.step admits here
      obtain ⟨after, rest, agreeAfter⟩ := ih agreeNext loop later
      refine ⟨after, ?_, agreeAfter⟩
      rw [applyTransactions, applied]
      exact rest
    · cases loop

theorem BlockchainState.distinct_of_applyTransactions (accepted : core.applyTransactions txs = (.ok (), after)) :
    ∀ tx ∈ txs, tx.sender ≠ tx.receiver := by
  induction txs generalizing core with
  | nil => exact fun _ member => absurd member List.not_mem_nil
  | cons tx rest ih =>
    rw [applyTransactions] at accepted
    rcases core.applyTransaction_cases tx with ⟨admits, next, applied, -⟩ | ⟨-, e, next, refused⟩
    · rw [applied] at accepted
      exact List.forall_mem_cons.mpr ⟨admits.distinct, ih accepted⟩
    · rw [refused] at accepted
      cases accepted

/-- What the core ledger accepts with the right nonces the manager accepts,
up to the last nonce of all. -/
theorem LedgersAgree.applyTransfers_iff (agree : LedgersAgree codec core state)
    (accepted : core.applyTransactions txs = (.ok (), after))
    (carried : CarryNextNonces (fun address => (state.getNonce codec address).toNat) txs) :
    (∃ mid, state.applyTransfers codec (txs.map toCanonicalTransfer) = (none, mid)) ↔
      ∀ tx ∈ txs, tx.nonce.toNat + 1 < 2 ^ 64 := by
  induction txs generalizing core state with
  | nil => exact iff_of_true ⟨state, rfl⟩ fun _ member => absurd member List.not_mem_nil
  | cons tx rest ih =>
    obtain ⟨next, later⟩ := carried
    rw [applyTransfers_map_cons, List.forall_mem_cons]
    rw [BlockchainState.applyTransactions] at accepted
    rcases core.applyTransaction_cases tx with ⟨admits, step, applied, -⟩ | ⟨-, e, step, refused⟩
    · by_cases room : tx.nonce.toNat + 1 < 2 ^ 64
      · obtain ⟨admitted, distinct⟩ := agree.admits_iff.mpr ⟨admits, eq_of_toNat_eq next, room⟩
        obtain ⟨step', applied', agreeNext⟩ := agree.step admitted distinct
        rw [applied'] at accepted
        have tail := ih agreeNext accepted (by
          convert later using 1
          funext address
          rw [getNonce_transferred, Function.update_apply]
          split
          · rw [toNat_add, ← next]
            exact Nat.mod_eq_of_lt room
          · rfl)
        rw [if_pos admitted]
        exact tail.trans (and_iff_right room).symm
      · refine iff_of_false ?_ fun both => room both.1
        rintro ⟨mid, loop⟩
        rw [if_neg fun admitted => room (StateManager.Admits.room admitted)] at loop
        cases loop
    · rw [refused] at accepted
      cases accepted

variable {hashes : Hashes} {outside : Outside} {block : Block} {body : Except String Bytes}
  {chainId genesisHash : String}

/-- Over agreeing ledgers: of the blocks the manager accepts, the core accepts
with the same balances exactly those without self-transfers; and of the blocks
the core accepts, the manager accepts, when place, root, nonces and storage
are in order, exactly those that do not use the last nonce. -/
theorem ledgers_agree_iff (agree : LedgersAgree codec core state) :
    ((state.applyInboundBlock codec hashes outside block body chainId genesisHash).1 = .ok () →
      ((core.applyBlock block).1 = .ok () ∧
          (∀ address, ((core.applyBlock block).2.balanceOf address).toNat =
            ((state.applyInboundBlock codec hashes outside block body chainId genesisHash).2.getBalance codec
              address).toNat) ↔
        ∀ tx ∈ block.transactions, tx.sender ≠ tx.receiver)) ∧
    ((core.applyBlock block).1 = .ok () →
      CarryNextNonces (fun address => (state.getNonce codec address).toNat) block.transactions →
      state.checkNextCanonicalBlock (block.inboundArgs hashes.sha3 body chainId genesisHash) = .ok () →
      (∀ mid, state.applyTransfers codec (block.transactions.map Transaction.toCanonicalTransfer) = (none, mid) →
        block.shardStateRoot = Hex.encode (mid.stateRoot hashes.blake3 outside.σ).1.toList) →
      (∃ bytes, body = .ok bytes) → outside.written = .ok () →
      ((state.applyInboundBlock codec hashes outside block body chainId genesisHash).1 = .ok () ↔
        ∀ tx ∈ block.transactions, tx.nonce.toNat + 1 < 2 ^ 64)) := by
  constructor
  · intro accepted
    obtain ⟨mid, loop, flushed⟩ := applyCanonicalBlock_ok (Prod.ext accepted rfl)
    constructor
    · rintro ⟨coreAccepts, -⟩
      exact distinct_of_applyTransactions (applyBlock_ok.mp (Prod.ext coreAccepts rfl))
    · intro distinct
      obtain ⟨coreAfter, applied, agreeAfter⟩ := agree.applyTransactions loop distinct
      have whole : core.applyBlock block = (.ok (), coreAfter) := by
        rw [applyBlock, applied]
      rw [whole]
      refine ⟨rfl, fun address => ?_⟩
      rw [getBalance, applyInboundBlock, getAccount_of_flush_staged flushed]
      exact agreeAfter.same address
  · rintro coreAccepts carried place root ⟨bytes, serialised⟩ written
    have applied := applyBlock_ok.mp (Prod.ext coreAccepts rfl)
    rw [← agree.applyTransfers_iff applied carried]
    constructor
    · intro accepted
      obtain ⟨mid, loop, -⟩ := applyCanonicalBlock_ok (Prod.ext accepted rfl)
      exact ⟨mid, loop⟩
    · rintro ⟨mid, loop⟩
      obtain ⟨after, accepted⟩ :=
        applyCanonicalBlock_accepts place loop (root mid loop).symm serialised written
      rw [applyInboundBlock, accepted]

def markedHashes : Hashes := ⟨markedHash, markedHash, markedHash⟩

def fundedState : StateManager := StateManager.empty.setBalance fixedWidthCodec "alice" 100

def fundedCore : BlockchainState := new.credit "alice" 100

theorem funded_agree : LedgersAgree fixedWidthCodec fundedCore fundedState := by
  constructor
  · intro address
    rw [fundedState, getBalance_setBalance, fundedCore, credit, balanceOf_insert]
    split <;> rfl
  · have minted : total (fundedState.ledger fixedWidthCodec) = 100 := by
      rw [fundedState, ledger_setBalance]
      have grown := total_update (empty.ledger fixedWidthCodec) "alice" 100
      rw [empty_total] at grown
      exact grown
    rw [minted]
    decide

variable (receiver : String)

/-- The first block of a chain: Alice pays 40, and the root is the one that
the funded manager computes. -/
def paymentBlock : Block :=
  let tx : Transaction := ⟨defaultChainId, "alice", receiver, 40, 1000, 0, []⟩
  let mid := (fundedState.applyTransfers fixedWidthCodec [tx.toCanonicalTransfer]).2
  Block.withConsensusAndSharding markedHash 1000 1 [tx] "genesis" 0 .posNormal currentProtocolVersion "" 0
    (Hex.encode (mid.stateRoot markedHash .stored).1.toList)

def commitPayment : Except StateError Unit × StateManager :=
  fundedState.applyInboundBlock fixedWidthCodec markedHashes quietly (paymentBlock receiver) (.ok []) defaultChainId
    "genesis"

theorem paymentBlock_place :
    fundedState.checkNextCanonicalBlock
      ((paymentBlock receiver).inboundArgs markedHash (.ok []) defaultChainId "genesis") = .ok () := rfl

theorem paymentBlock_root (mid : StateManager)
    (loop : fundedState.applyTransfers fixedWidthCodec
      ((paymentBlock receiver).transactions.map toCanonicalTransfer) = (none, mid)) :
    (paymentBlock receiver).shardStateRoot = Hex.encode (mid.stateRoot markedHash .stored).1.toList := by
  change Hex.encode ((fundedState.applyTransfers fixedWidthCodec
    ((paymentBlock receiver).transactions.map toCanonicalTransfer)).2.stateRoot markedHash .stored).1.toList = _
  rw [loop]

theorem payment_to_bob_agrees :
    (fundedCore.applyBlock (paymentBlock "bob")).1 = .ok () ∧ (commitPayment "bob").1 = .ok () ∧
      ∀ address, ((fundedCore.applyBlock (paymentBlock "bob")).2.balanceOf address).toNat =
        ((commitPayment "bob").2.getBalance fixedWidthCodec address).toNat := by
  have coreAccepts : (fundedCore.applyBlock (paymentBlock "bob")).1 = .ok () := rfl
  have carried : CarryNextNonces (fun address => (fundedState.getNonce fixedWidthCodec address).toNat)
      (paymentBlock "bob").transactions := ⟨rfl, trivial⟩
  obtain ⟨forward, backward⟩ := @ledgers_agree_iff fixedWidthCodec fundedCore fundedState markedHashes quietly
    (paymentBlock "bob") (.ok []) defaultChainId "genesis" funded_agree
  have accepted : (commitPayment "bob").1 = .ok () :=
    (backward coreAccepts carried (paymentBlock_place "bob") (paymentBlock_root "bob") ⟨[], rfl⟩ rfl).mpr (by decide)
  have distinct : ∀ tx ∈ (paymentBlock "bob").transactions, tx.sender ≠ tx.receiver := by decide
  exact ⟨coreAccepts, accepted, ((forward accepted).mpr distinct).2⟩

/-- Alice's payment to herself is committed by the manager and refused by the
core. -/
theorem payment_to_self_disagrees :
    LedgersAgree fixedWidthCodec fundedCore fundedState ∧ (commitPayment "alice").1 = .ok () ∧
      (fundedCore.applyBlock (paymentBlock "alice")).1 = .error "Self-transfer rejected for alice" := by
  have loop : ∃ mid, fundedState.applyTransfers fixedWidthCodec
      ((paymentBlock "alice").transactions.map toCanonicalTransfer) = (none, mid) := ⟨_, rfl⟩
  obtain ⟨mid, loop⟩ := loop
  obtain ⟨after, accepted⟩ := @StateManager.applyCanonicalBlock_accepts fixedWidthCodec markedHash _ quietly _ _ _ mid []
    (paymentBlock_place "alice") loop (paymentBlock_root "alice" mid loop).symm rfl rfl
  exact ⟨funded_agree, congrArg Prod.fst accepted, rfl⟩

end Bleep
