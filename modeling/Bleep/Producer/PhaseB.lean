import Bleep.Core.Agreement
import Bleep.Producer.ExtendedProof
import Bleep.Vm.Transfer

namespace Bleep
open HashTable Words StateManager OrderedStore Hex List

/-- A pending transaction with what its processing meets outside: the engine
selected for it in phase A and the wall clock in phase B. -/
structure Attempt where
  tx : Transaction
  selected : Except VmError String
  now : U64

/-- The first 32 bytes of an address, padded with zeros. -/
def accountBytes (address : String) : Hash32 := Vector.ofFn fun i => (utf8 address).getD i.val 0

def Transaction.toTransferIntent (tx : Transaction) : TransferIntent :=
  ⟨accountBytes tx.sender, accountBytes tx.receiver, tx.amount.setWidth 128⟩

/-- Phase A for one transaction: an unsigned intent through the VM. -/
def Attempt.execute (router : RouterConfig) (verifySignature : Intent → Bool) (attempt : Attempt) :
    Bool × StateDiff :=
  match VmRouter.route router verifySignature attempt.selected (.newUnsigned attempt.tx.toTransferIntent) with
  | .ok outcome => (outcome.success, outcome.stateDiff)
  | .error _ => (false, .empty)

section
variable (codec : Codec) (tx : Transaction)

variable (state : StateManager)

/-- One turn of the loop over the balance deltas of a diff. -/
def applyVmBalance (entry : Bytes × I128) : StateManager :=
  let addr := Hex.encode entry.1
  if addr = tx.sender ∨ addr = tx.receiver then state
  else
    let current := state.getBalance codec addr
    let newBal := if entry.2.msb then saturatingSub current (-entry.2) else saturatingAdd current entry.2
    state.setBalance codec addr newBal

/-- One turn of the loop over the nonces of a diff: increments up to the
nonce the VM reports. -/
def applyVmNonce (entry : Bytes × U64) : StateManager :=
  let addr := Hex.encode entry.1
  if addr = tx.sender then state
  else
    Nat.iterate (fun state => state.incrementNonce codec addr) (entry.2.toNat - (state.getNonce codec addr).toNat) state

/-- Paths 2 and 3 of phase B. -/
def applyVmDiff (diff : StateDiff) : StateManager :=
  let state := (OrderedStore.scanFrom diff.balances []).foldl (applyVmBalance codec tx) state
  (OrderedStore.scanFrom diff.nonces []).foldl (applyVmNonce codec tx) state

end

structure BlockProducer where
  codec : Codec
  hashes : Hashes
  sphincs : Sphincs
  config : ProducerConfig
  router : RouterConfig
  verifySignature : Intent → Bool

namespace BlockProducer
variable (producer : BlockProducer)

/-- Phase B for one transaction, and whether the block takes it. -/
def settle (state : StateManager) (attempt : Attempt) : Bool × StateManager :=
  let tx := attempt.tx
  let (vmOk, diff) := attempt.execute producer.router producer.verifySignature
  if !vmOk || tx.chainId != producer.config.chainId
      || !tx.verifyAccountAuthorization producer.hashes producer.sphincs
      || state.getNonce producer.codec tx.sender != tx.nonce then (false, state)
  else
    match state.applyTransfer producer.codec attempt.now tx.sender tx.receiver (tx.amount.setWidth 128) tx.nonce
      tx.timestamp with
    | (false, state) => (false, state)
    | (true, state) => (true, applyVmDiff producer.codec tx state diff)

/-- Phase B of `produce_one_inner`: the transactions of the block and the
state they leave. -/
def phaseB (state : StateManager) : List Attempt → List Transaction × StateManager
  | [] => ([], state)
  | attempt :: rest =>
    let (accepted, state) := producer.settle state attempt
    let (blockTxs, state) := phaseB state rest
    (if accepted then attempt.tx :: blockTxs else blockTxs, state)

end BlockProducer

variable {codec : Codec} {tx : Transaction} {state : StateManager} {address : String} {entries : List (Bytes × I128)}

theorem getBalance_applyVmBalances_of_ne
    (elsewhere : ∀ entry ∈ entries, encode entry.1 = address → address = tx.sender ∨ address = tx.receiver) :
    (entries.foldl (applyVmBalance codec tx) state).getBalance codec address = state.getBalance codec address := by
  induction entries generalizing state with
  | nil => rfl
  | cons entry entries ih =>
    obtain ⟨here, later⟩ := forall_mem_cons.mp elsewhere
    rw [foldl_cons, ih later]
    unfold applyVmBalance
    simp only
    split
    · rfl
    rename_i handled
    rw [getBalance_setBalance, if_neg]
    intro same
    exact handled (same ▸ here same.symm)

/-- An account of the diff that is not a party of the transaction gets its
delta, once. -/
theorem getBalance_applyVmBalances_of_mem {key delta} (nodup : (entries.map Prod.fst).Nodup)
    (member : (key, delta) ∈ entries) (outsider : encode key ≠ tx.sender ∧ encode key ≠ tx.receiver) :
    (entries.foldl (applyVmBalance codec tx) state).getBalance codec (encode key) =
      if delta.msb then saturatingSub (state.getBalance codec (encode key)) (-delta)
      else saturatingAdd (state.getBalance codec (encode key)) delta := by
  obtain ⟨before, after, rfl⟩ := append_of_mem member
  rw [map_append, map_cons, nodup_append] at nodup
  obtain ⟨-, right, apart⟩ := nodup
  have earlier : ∀ entry ∈ before, encode entry.1 = encode key →
      encode key = tx.sender ∨ encode key = tx.receiver := by
    intro entry listed same
    exact absurd (encode_injective same) (apart _ (mem_map_of_mem listed) key mem_cons_self)
  have later : ∀ entry ∈ after, encode entry.1 = encode key →
      encode key = tx.sender ∨ encode key = tx.receiver := by
    intro entry listed same
    have again := (nodup_cons.mp right).1
    rw [← encode_injective same] at again
    exact absurd (mem_map_of_mem listed) again
  rw [foldl_append, foldl_cons, getBalance_applyVmBalances_of_ne later, applyVmBalance]
  rw [if_neg (not_or.mpr outsider), getBalance_setBalance, if_pos rfl, getBalance_applyVmBalances_of_ne earlier]

theorem applyVmDiff_transferDiff (kind : TransferIntent) :
    applyVmDiff codec tx state (transferDiff kind) =
      (scanFrom (transferDiff kind).balances []).foldl (applyVmBalance codec tx) state := rfl

theorem getNonce_applyVmDiff (kind : TransferIntent) (address : String) :
    (applyVmDiff codec tx state (transferDiff kind)).getNonce codec address = state.getNonce codec address := by
  rw [applyVmDiff_transferDiff]
  refine foldlRecOn (motive := fun after : StateManager => after.getNonce codec address = _) _ _ rfl
    fun after kept entry _ => ?_
  rw [← kept]
  unfold applyVmBalance
  simp only
  split
  · rfl
  · exact getNonce_setBalance ..

/-- The account the VM diff means by an address: the hexadecimal text of its
bytes. -/
def mirror (address : String) : String := Hex.encode (accountBytes address).toList

theorem neg_wide_msb {amount : U64} (positive : amount ≠ 0) : (-(amount.setWidth 128)).msb = true := by
  have nonzero : amount.toNat ≠ 0 := fun zero => positive (BitVec.eq_of_toNat_eq zero)
  rw [BitVec.msb_eq_decide, decide_eq_true_eq, BitVec.toNat_neg, toNat_wide]
  omega

theorem mem_transferDiff {kind key delta} :
    (key, delta) ∈ scanFrom (transferDiff kind).balances [] ↔
      (if key = kind.to.toList then some (if kind.from = kind.to then 0 else kind.amount)
        else if key = kind.from.toList then some (-kind.amount) else none) = some delta := by
  rw [mem_scanFrom_nil, lookup_transferDiff]

/-- Accounts that are neither mirror, and the parties themselves, keep their
balance. -/
theorem getBalance_applyVmDiff_of_ne (elsewhere : address = mirror tx.sender ∨ address = mirror tx.receiver →
      address = tx.sender ∨ address = tx.receiver) :
    (applyVmDiff codec tx state (transferDiff tx.toTransferIntent)).getBalance codec address =
      state.getBalance codec address := by
  rw [applyVmDiff_transferDiff]
  refine getBalance_applyVmBalances_of_ne fun ⟨key, delta⟩ listed here => elsewhere ?_
  have stored := mem_transferDiff.mp listed
  split at stored
  · rename_i atKey
    exact .inr (here.symm.trans (congrArg encode atKey))
  · split at stored
    · rename_i atKey
      exact .inl (here.symm.trans (congrArg encode atKey))
    · cases stored

section
variable (distinct : accountBytes tx.sender ≠ accountBytes tx.receiver)
include distinct

theorem getBalance_applyVmDiff_receiver (outsider : mirror tx.receiver ≠ tx.sender ∧ mirror tx.receiver ≠ tx.receiver) :
    (applyVmDiff codec tx state (transferDiff tx.toTransferIntent)).getBalance codec (mirror tx.receiver) =
      saturatingAdd (state.getBalance codec (mirror tx.receiver)) (tx.amount.setWidth 128) := by
  have credited : ((accountBytes tx.receiver).toList, tx.amount.setWidth 128) ∈
      scanFrom (transferDiff tx.toTransferIntent).balances [] :=
    mem_transferDiff.mpr ((if_pos rfl).trans (congrArg some (if_neg distinct)))
  have nodup := scanFrom_keys_nodup (transferDiff tx.toTransferIntent).balances []
  have positive : (tx.amount.setWidth 128).msb = false := by
    rw [BitVec.msb_eq_decide, decide_eq_false_iff_not, toNat_wide]
    omega
  rw [applyVmDiff_transferDiff, mirror, getBalance_applyVmBalances_of_mem nodup credited outsider, positive]
  rfl

theorem getBalance_applyVmDiff_sender (positive : tx.amount ≠ 0)
    (outsider : mirror tx.sender ≠ tx.sender ∧ mirror tx.sender ≠ tx.receiver) :
    (applyVmDiff codec tx state (transferDiff tx.toTransferIntent)).getBalance codec (mirror tx.sender) =
      saturatingSub (state.getBalance codec (mirror tx.sender)) (tx.amount.setWidth 128) := by
  have elsewhere : (accountBytes tx.sender).toList ≠ (accountBytes tx.receiver).toList :=
    fun equal => distinct (Vector.toList_inj.mp equal)
  have debited : ((accountBytes tx.sender).toList, -(tx.amount.setWidth 128)) ∈
      scanFrom (transferDiff tx.toTransferIntent).balances [] :=
    mem_transferDiff.mpr ((if_neg elsewhere).trans (if_pos rfl))
  have nodup := scanFrom_keys_nodup (transferDiff tx.toTransferIntent).balances []
  rw [applyVmDiff_transferDiff, mirror, getBalance_applyVmBalances_of_mem nodup debited outsider,
    neg_wide_msb positive, if_pos rfl, BitVec.neg_neg]

end

theorem getBalance_applyVmDiff_same (same : accountBytes tx.sender = accountBytes tx.receiver) (address : String) :
    (applyVmDiff codec tx state (transferDiff tx.toTransferIntent)).getBalance codec address =
      state.getBalance codec address := by
  by_cases party : address = tx.sender ∨ address = tx.receiver
  · exact getBalance_applyVmDiff_of_ne fun _ => party
  have mirrors : mirror tx.sender = mirror tx.receiver := by rw [mirror, same, mirror]
  by_cases here : address = mirror tx.receiver
  · subst here
    have cancelled : ((accountBytes tx.receiver).toList, 0) ∈
        scanFrom (transferDiff tx.toTransferIntent).balances [] :=
      mem_transferDiff.mpr ((if_pos rfl).trans (congrArg some (if_pos same)))
    have nodup := scanFrom_keys_nodup (transferDiff tx.toTransferIntent).balances []
    rw [applyVmDiff_transferDiff, mirror, getBalance_applyVmBalances_of_mem nodup cancelled (not_or.mp party),
      if_neg (by decide)]
    exact saturatingAdd_eq_self.mpr (.inl rfl)
  · refine getBalance_applyVmDiff_of_ne fun atMirror => absurd ?_ here
    rwa [mirrors, or_self] at atMirror

/-- When the VM side of an accepted transfer writes nothing new: the deltas
cancel, or each mirror is the receiver or too empty or too full to change. -/
def VmWritesInert (codec : Codec) (state : StateManager) (tx : Transaction) : Prop :=
  accountBytes tx.sender = accountBytes tx.receiver ∨
    (mirror tx.sender = tx.receiver ∨ state.getBalance codec (mirror tx.sender) = 0) ∧
    (mirror tx.receiver = tx.receiver ∨ state.getBalance codec (mirror tx.receiver) = BitVec.allOnes 128)

theorem vmWritesInert_iff (foreign : ∀ bytes, encode bytes ≠ tx.sender) (positive : tx.amount ≠ 0) :
    (∀ address, (applyVmDiff codec tx state (transferDiff tx.toTransferIntent)).getBalance codec address =
      state.getBalance codec address) ↔ VmWritesInert codec state tx := by
  have nonzero : tx.amount.setWidth 128 ≠ 0 := by
    intro zero
    have low := congrArg BitVec.toNat zero
    exact positive (BitVec.eq_of_toNat_eq low)
  constructor
  · intro kept
    by_cases same : accountBytes tx.sender = accountBytes tx.receiver
    · exact .inl same
    refine .inr ⟨or_iff_not_imp_left.mpr fun party => ?_, or_iff_not_imp_left.mpr fun party => ?_⟩
    · have debited := kept (mirror tx.sender)
      rw [getBalance_applyVmDiff_sender same positive ⟨foreign _, party⟩, saturatingSub_eq_self] at debited
      exact debited.resolve_left nonzero
    · have credited := kept (mirror tx.receiver)
      rw [getBalance_applyVmDiff_receiver same ⟨foreign _, party⟩, saturatingAdd_eq_self] at credited
      exact credited.resolve_left nonzero
  · intro inert address
    by_cases same : accountBytes tx.sender = accountBytes tx.receiver
    · exact getBalance_applyVmDiff_same same address
    obtain ⟨drained, full⟩ := inert.resolve_left same
    by_cases party : address = tx.sender ∨ address = tx.receiver
    · exact getBalance_applyVmDiff_of_ne fun _ => party
    obtain ⟨notSender, notReceiver⟩ := not_or.mp party
    by_cases atReceiver : address = mirror tx.receiver
    · subst atReceiver
      rw [getBalance_applyVmDiff_receiver same ⟨notSender, notReceiver⟩]
      exact saturatingAdd_eq_self.mpr (.inr (full.resolve_left notReceiver))
    by_cases atSender : address = mirror tx.sender
    · subst atSender
      rw [getBalance_applyVmDiff_sender same positive ⟨notSender, notReceiver⟩]
      exact saturatingSub_eq_self.mpr (.inr (drained.resolve_left notReceiver))
    · exact getBalance_applyVmDiff_of_ne fun atMirror => (not_or.mpr ⟨atSender, atReceiver⟩ atMirror).elim

end Bleep
