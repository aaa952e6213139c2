import Bleep.State.TrieSync

namespace Bleep
open HashTable Words StateManager List

/-- The calls a node makes on its manager between two starts. -/
inductive StateCall
  | setBalance (address : String) (balance : U128)
  | incrementNonce (address : String)
  | setCodeHash (address : String) (hash : Hash32)
  | mint (σ : IterOrder) (address : String) (amount : U128)
  | applyTransfer (now : U64) (sender receiver : String) (amount : U128) (nonce timestamp : U64)
  | applyCanonicalBlock (outside : Outside) (block : BlockArgs) (expectedRoot : String)
      (transfers : List CanonicalTransfer)
  | persistCanonicalBlock (outside : Outside) (block : BlockArgs)
  | commitBlock (outside : Outside)
  | stateRoot (σ : IterOrder)
  | proveAccount (σ : IterOrder) (address : String)

open StateCall

namespace StateCall

section
variable (codec : Codec) (blake3 : Bytes → Hash32)

variable (state : StateManager)

def apply : StateCall → StateManager
  | setBalance address balance => state.setBalance codec address balance
  | incrementNonce address => state.incrementNonce codec address
  | setCodeHash address hash => state.setCodeHash codec address hash
  | mint σ address amount => (state.mint codec σ address amount).2
  | applyTransfer now sender receiver amount nonce timestamp =>
    (state.applyTransfer codec now sender receiver amount nonce timestamp).2
  | applyCanonicalBlock outside block expectedRoot transfers =>
    (state.applyCanonicalBlock codec blake3 outside block expectedRoot transfers).2
  | persistCanonicalBlock outside block => (state.persistCanonicalBlock codec blake3 outside block).2
  | commitBlock outside => (state.commitBlock codec blake3 outside).2
  | stateRoot σ => (state.stateRoot blake3 σ).2
  | proveAccount σ address => (state.proveAccount blake3 σ address).2

/-- The sender and the nonce of each transfer a call has applied. -/
def applied : StateCall → List (String × U64)
  | applyTransfer now sender receiver amount nonce timestamp =>
    if (state.applyTransfer codec now sender receiver amount nonce timestamp).1 then [(sender, nonce)] else []
  | applyCanonicalBlock outside block expectedRoot transfers =>
    match (state.applyCanonicalBlock codec blake3 outside block expectedRoot transfers).1 with
    | .ok () => transfers.map fun transfer => (transfer.sender, transfer.nonce)
    | .error _ => []
  | _ => []

/-- A successful call that writes its state to the database. -/
def commits : StateCall → Bool
  | applyCanonicalBlock outside block expectedRoot transfers =>
    (state.applyCanonicalBlock codec blake3 outside block expectedRoot transfers).1.toBool
  | persistCanonicalBlock outside block => (state.persistCanonicalBlock codec blake3 outside block).1.toBool
  | commitBlock outside => (state.commitBlock codec blake3 outside).1.toBool
  | _ => false

end

/-- `increment_nonce` is the only call that moves a nonce without a transfer. -/
def bumps : StateCall → Bool
  | incrementNonce _ => true
  | _ => false

/-- The addresses a call may write. -/
def writes : StateCall → List String
  | setBalance address _ => [address]
  | incrementNonce address => [address]
  | setCodeHash address _ => [address]
  | mint _ address _ => [address]
  | applyTransfer _ sender receiver _ _ _ => [sender, receiver]
  | applyCanonicalBlock _ _ _ transfers => transfers.flatMap fun transfer => [transfer.sender, transfer.receiver]
  | _ => []

end StateCall

/-- The states reached from a given one by calls that meet a condition, with
the log of the transfers applied on the way. -/
inductive CallReach (codec : Codec) (blake3 : Bytes → Hash32) (allowed : StateCall → Prop) (initial : StateManager) :
    List (String × U64) → StateManager → Prop
  | start : CallReach codec blake3 allowed initial [] initial
  | call {log : List (String × U64)} {state : StateManager} (call : StateCall)
      (reach : CallReach codec blake3 allowed initial log state) (allows : allowed call) :
      CallReach codec blake3 allowed initial (log ++ call.applied codec blake3 state) (call.apply codec blake3 state)

variable {codec : Codec} {blake3 : Bytes → Hash32} {initial state after : StateManager} {outside : Outside}
  {block : BlockArgs} {expectedRoot : String} {transfers : List CanonicalTransfer}

/-- The log and the state after a list of calls. -/
def makeCalls (codec : Codec) (blake3 : Bytes → Hash32) (initial : StateManager) (calls : List StateCall) :
    List (String × U64) × StateManager :=
  calls.foldl (fun run call => (run.1 ++ call.applied codec blake3 run.2, call.apply codec blake3 run.2)) ([], initial)

theorem makeCalls_reach {allowed calls} (allows : ∀ call ∈ calls, allowed call) :
    CallReach codec blake3 allowed initial (makeCalls codec blake3 initial calls).1
      (makeCalls codec blake3 initial calls).2 :=
  foldlRecOn (motive := fun run : List (String × U64) × StateManager =>
      CallReach codec blake3 allowed initial run.1 run.2) calls _ .start fun _ reach call member => .call call reach (allows call member)

/-- A refused block leaves every account, the height, the supply, the
database and the state root as they were. -/
theorem refused_block_leaves_state {e : StateError}
    (refused : state.applyCanonicalBlock codec blake3 outside block expectedRoot transfers = (.error e, after)) :
    (∀ address, after.getBalance codec address = state.getBalance codec address ∧
      after.getNonce codec address = state.getNonce codec address ∧
      (after.getAccount codec address).codeHash = (state.getAccount codec address).codeHash) ∧
    after.blockHeight = state.blockHeight ∧
    (∀ σ, after.totalSupply codec σ = state.totalSupply codec σ) ∧
    after.db = state.db ∧
    ∀ σ, after.stateRoot blake3 σ = state.stateRoot blake3 σ := by
  rw [applyCanonicalBlock_error refused]
  exact ⟨fun _ => ⟨rfl, rfl, rfl⟩, rfl, fun _ => rfl, rfl, fun _ => rfl⟩

/-- The first block, as its proposer hands it over. -/
def openingBlock : BlockArgs :=
  { body := .ok [1], index := 1, blockHash := "h1", previousHash := "g", chainId := "bleep", genesisHash := "g" }

/-- Alice holds 100 and is to pay 40 twice with one nonce. -/
theorem refused_double_spend :
    let before := (StateManager.empty.mint fixedWidthCodec .stored "alice" 100).2
    let (result, after) := before.applyCanonicalBlock fixedWidthCodec markedHash quietly openingBlock ""
      [⟨"alice", "bob", 40, 0⟩, ⟨"alice", "bob", 40, 0⟩]
    result = .error (.storage "block 1 transaction state transition rejected for alice") ∧
      after.getBalance fixedWidthCodec "alice" = 100 ∧ after.blockHeight = 0 ∧ after.db = ∅ := by
  intro before
  have refused : before.applyCanonicalBlock fixedWidthCodec markedHash quietly openingBlock ""
      [⟨"alice", "bob", 40, 0⟩, ⟨"alice", "bob", 40, 0⟩] =
        (.error (.storage "block 1 transaction state transition rejected for alice"), before) := rfl
  obtain ⟨accounts, height, -, db, -⟩ := refused_block_leaves_state refused
  rw [refused]
  refine ⟨rfl, ?_, height, db⟩
  rw [(accounts "alice").1]
  decide

section Nonces

variable (sender : String) {log : List (String × U64)}

/-- The nonces of one sender's transfers, in the order of the log. -/
def noncesOf (log : List (String × U64)) : List Nat :=
  log.filterMap fun entry => if entry.1 = sender then some entry.2.toNat else none

theorem noncesOf_cons (entry : String × U64) (log : List (String × U64)) :
    noncesOf sender (entry :: log) =
      if entry.1 = sender then entry.2.toNat :: noncesOf sender log else noncesOf sender log := by
  unfold noncesOf
  by_cases same : entry.1 = sender
  · simp only [filterMap_cons, if_pos same]
  · simp only [filterMap_cons, if_neg same]

theorem noncesOf_append (log later : List (String × U64)) :
    noncesOf sender (log ++ later) = noncesOf sender log ++ noncesOf sender later :=
  filterMap_append

/-- Between two states every sender has used up the nonces in between, one
after the other. -/
structure Consecutive (codec : Codec) (before : StateManager) (log : List (String × U64)) (after : StateManager) :
    Prop where
  nonces : ∀ sender, noncesOf sender log = List.range' (before.getNonce codec sender).toNat (noncesOf sender log).length
  next : ∀ sender, (after.getNonce codec sender).toNat =
    (before.getNonce codec sender).toNat + (noncesOf sender log).length

theorem Consecutive.of_kept (kept : ∀ sender, after.getNonce codec sender = state.getNonce codec sender) :
    Consecutive codec state [] after :=
  ⟨fun _ => rfl, fun sender => congrArg BitVec.toNat (kept sender)⟩

theorem Consecutive.trans {first second third later}
    (left : Consecutive codec first log second) (right : Consecutive codec second later third) :
    Consecutive codec first (log ++ later) third := by
  constructor
  · intro sender
    rw [noncesOf_append, length_append, ← range'_append_1, ← left.nonces, ← left.next, ← right.nonces]
  · intro sender
    rw [right.next, left.next, noncesOf_append, length_append, Nat.add_assoc]

theorem Consecutive.transferred {sender receiver amount nonce}
    (admits : Admits codec state sender receiver amount nonce) :
    Consecutive codec state [(sender, nonce)] (transferred codec state sender receiver amount nonce) := by
  have step : (nonce + 1).toNat = nonce.toNat + 1 := by
    rw [BitVec.toNat_add]
    exact Nat.mod_eq_of_lt admits.room
  have current := congrArg BitVec.toNat admits.next
  have listed (other : String) : noncesOf other [(sender, nonce)] = if sender = other then [nonce.toNat] else [] :=
    noncesOf_cons other (sender, nonce) []
  constructor
  · intro other
    rw [listed]
    by_cases same : sender = other
    · subst same
      rw [if_pos rfl, ← current]
      rfl
    · rw [if_neg same]
      rfl
  · intro other
    rw [listed, getNonce_transferred]
    by_cases same : sender = other
    · subst same
      rw [if_pos rfl, if_pos rfl, step, current]
      rfl
    · rw [if_neg same, if_neg (Ne.symm same)]
      rfl

/-- The loop over the transfers of a block, when none is refused. -/
theorem Consecutive.applyTransfers (loop : state.applyTransfers codec transfers = (none, after)) :
    Consecutive codec state (transfers.map fun transfer => (transfer.sender, transfer.nonce)) after := by
  induction transfers generalizing state with
  | nil =>
    cases loop
    exact .of_kept fun _ => rfl
  | cons transfer rest ih =>
    rw [applyTransfers_cons] at loop
    split at loop
    · rename_i admits
      exact (Consecutive.transferred admits).trans (ih loop)
    · cases loop

/-- One call: an accepted transfer or block moves the nonces of its senders,
and nothing else moves any. -/
theorem Consecutive.call {call : StateCall} (steady : call.bumps = false) :
    Consecutive codec state (call.applied codec blake3 state) (call.apply codec blake3 state) := by
  cases call with
  | setBalance address balance => exact .of_kept fun _ => getNonce_setBalance ..
  | incrementNonce address => cases steady
  | setCodeHash address hash =>
    refine .of_kept fun sender => ?_
    rw [apply, getNonce, StateManager.setCodeHash, getAccount_modifyAccount]
    split
    · rename_i here
      rw [here, getNonce]
    · rfl
  | mint σ address amount =>
    refine .of_kept fun sender => ?_
    rw [apply]
    rcases mint_cases codec σ state address amount with ⟨e, refused⟩ | ⟨balance, minted, -⟩
    · rw [refused]
    · rw [minted]
      exact getNonce_setBalance ..
  | applyTransfer now sender receiver amount nonce timestamp =>
    rw [applied, apply]
    rcases applyTransfer_cases codec now state sender receiver amount nonce timestamp with
      refused | ⟨accepted, admits⟩
    · rw [refused]
      exact .of_kept fun _ => rfl
    · rw [accepted]
      exact .transferred admits
  | applyCanonicalBlock outside block expectedRoot transfers =>
    rw [applied, apply]
    rcases result : state.applyCanonicalBlock codec blake3 outside block expectedRoot transfers with ⟨_ | _, after⟩
    · rw [applyCanonicalBlock_error result]
      exact .of_kept fun _ => rfl
    · obtain ⟨mid, loop, flushed⟩ := applyCanonicalBlock_ok result
      have moved := Consecutive.applyTransfers loop
      refine ⟨moved.nonces, fun sender => ?_⟩
      rw [← moved.next sender, getNonce, getNonce, getAccount_of_flush_staged flushed]
  | persistCanonicalBlock outside block =>
    exact .of_kept fun _ => congrArg AccountState.nonce (getAccount_persistCanonicalBlock _)
  | commitBlock outside => exact .of_kept fun _ => congrArg AccountState.nonce (getAccount_commitBlock _)
  | stateRoot σ => exact .of_kept fun _ => rfl
  | proveAccount σ address => exact .of_kept fun _ => rfl

theorem distinct_of_noncesOf_nodup (nodup : ∀ sender, (noncesOf sender log).Nodup) :
    log.Pairwise fun first second => first.1 = second.1 → first.2 ≠ second.2 := by
  induction log with
  | nil => exact .nil
  | cons entry log ih =>
    refine pairwise_cons.mpr ⟨fun later member same equal => ?_, ih fun sender => ?_⟩
    · have own := nodup entry.1
      rw [noncesOf_cons, if_pos rfl, nodup_cons] at own
      exact own.1 (mem_filterMap.mpr ⟨later, member, by rw [if_pos same.symm, equal]⟩)
    · exact (nodup sender).sublist ((sublist_cons_self entry log).filterMap _)

theorem length_noncesOf (log : List (String × U64)) :
    (noncesOf sender log).length = log.countP fun entry => entry.1 = sender := by
  induction log with
  | nil => rfl
  | cons entry log ih =>
    rw [noncesOf_cons, countP_cons, ← ih]
    by_cases same : entry.1 = sender
    · simp [same]
    · simp [same]

/-- No transfer is applied twice: the transfers of one sender carry different
nonces, and the nonce of an account counts them. -/
theorem no_transfer_replayed {log : List (String × U64)}
    (reach : CallReach codec blake3 (fun call => call.bumps = false) initial log state) :
    (log.Pairwise fun first second => first.1 = second.1 → first.2 ≠ second.2) ∧
    ∀ address, (state.getNonce codec address).toNat =
      (log.countP fun entry => entry.1 = address) + (initial.getNonce codec address).toNat := by
  have used : Consecutive codec initial log state := by
    induction reach with
    | start => exact .of_kept fun _ => rfl
    | call call _ steady ih => exact ih.trans (.call steady)
  refine ⟨distinct_of_noncesOf_nodup fun sender => ?_, fun address => ?_⟩
  · rw [used.nonces]
    exact nodup_range'
  · rw [used.next, length_noncesOf, Nat.add_comm]

/-- A payment, its replay, a later payment and a commit. -/
def paidTwice : List StateCall :=
  [.mint .stored "alice" 100, .applyTransfer 1000 "alice" "bob" 40 0 990, .applyTransfer 1000 "alice" "bob" 40 0 990,
    .applyTransfer 1001 "alice" "carol" 1 1 1000, .commitBlock quietly]

theorem paidTwice_nonces :
    (makeCalls fixedWidthCodec markedHash .empty paidTwice).1 = [("alice", 0), ("alice", 1)] ∧
      ((makeCalls fixedWidthCodec markedHash .empty paidTwice).2.getNonce fixedWidthCodec "alice").toNat = 2 := by
  have reach : CallReach fixedWidthCodec markedHash (fun call => call.bumps = false) .empty _ _ :=
    makeCalls_reach (by decide : ∀ call ∈ paidTwice, call.bumps = false)
  have log : (makeCalls fixedWidthCodec markedHash .empty paidTwice).1 = [("alice", 0), ("alice", 1)] := by decide
  refine ⟨log, ?_⟩
  rw [(no_transfer_replayed reach).2 "alice", log]
  decide

theorem Consecutive.of_reach (reach : CallReach codec blake3 (fun call => call.bumps = false) initial log state) :
    Consecutive codec initial log state := by
  induction reach with
  | start => exact .of_kept fun _ => rfl
  | call call _ steady ih => exact ih.trans (.call steady)

end Nonces

end Bleep
