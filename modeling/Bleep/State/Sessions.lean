import Bleep.State.Supply
import Bleep.Trie.Runs

namespace Bleep
open HashTable Words StateManager List BitVec Ledger

/-- One process using a manager: the amounts minted and not rolled back, and
the checkpoints it holds, each with the state it was taken of. -/
structure Session where
  state : StateManager
  minted : Nat
  saved : List (StateManager × Nat)

def Session.start : Session := ⟨.empty, 0, []⟩

inductive StateOp
  | mint (σ : IterOrder) (address : String) (amount : U128)
  | applyTransfer (now : U64) (sender receiver : String) (amount : U128) (nonce timestamp : U64)
  | applyCanonicalBlock (outside : Outside) (block : BlockArgs) (expectedRoot : String)
      (transfers : List CanonicalTransfer)
  | persistCanonicalBlock (outside : Outside) (block : BlockArgs)
  | commitBlock (outside : Outside)
  | checkpoint
  | restoreCheckpoint (i : Nat)

section
variable (codec : Codec) (blake3 : Bytes → Hash32)

def StateOp.apply (session : Session) : StateOp → Session
  | mint σ address amount =>
    match session.state.mint codec σ address amount with
    | (.ok _, state) => { session with state := state, minted := session.minted + amount.toNat }
    | (.error _, state) => { session with state := state }
  | applyTransfer now sender receiver amount nonce timestamp =>
    { session with state := (session.state.applyTransfer codec now sender receiver amount nonce timestamp).2 }
  | applyCanonicalBlock outside block expectedRoot transfers =>
    { session with
      state := (session.state.applyCanonicalBlock codec blake3 outside block expectedRoot transfers).2 }
  | persistCanonicalBlock outside block =>
    { session with state := (session.state.persistCanonicalBlock codec blake3 outside block).2 }
  | commitBlock outside => { session with state := (session.state.commitBlock codec blake3 outside).2 }
  | checkpoint => { session with saved := session.saved ++ [(session.state, session.minted)] }
  | restoreCheckpoint i =>
    match session.saved[i]? with
    | some (taken, minted) =>
      { session with state := session.state.restoreCheckpoint taken.checkpoint, minted := minted }
    | none => session

end

/-- No checkpoint is restored after a durable write. -/
def StateOp.RestoresInTime (session : Session) : StateOp → Prop
  | restoreCheckpoint i => ∀ taken ∈ session.saved[i]?, taken.1.db = session.state.db
  | _ => True

def StateOp.transfers : StateOp → List (String × String)
  | applyTransfer _ sender receiver _ _ _ => [(sender, receiver)]
  | applyCanonicalBlock _ _ _ transfers => transfers.map fun transfer => (transfer.sender, transfer.receiver)
  | _ => []

/-- No transfer goes from an address to itself, and no checkpoint is restored
too late. -/
structure StateOp.Orderly (session : Session) (op : StateOp) : Prop where
  distinct : ∀ transfer ∈ op.transfers, transfer.1 ≠ transfer.2
  inTime : op.RestoresInTime session

/-- The sessions reached by steps that meet a condition. -/
inductive SessionReach (codec : Codec) (blake3 : Bytes → Hash32) (allowed : Session → StateOp → Prop) : Session → Prop
  | start : SessionReach codec blake3 allowed .start
  | step {session : Session} (op : StateOp) (reach : SessionReach codec blake3 allowed session)
      (allows : allowed session op) : SessionReach codec blake3 allowed (op.apply codec blake3 session)

abbrev OrderlyReach (codec : Codec) (blake3 : Bytes → Hash32) : Session → Prop :=
  SessionReach codec blake3 StateOp.Orderly

variable {codec : Codec} {blake3 : Bytes → Hash32} {state : StateManager} {session : Session}

theorem mint_cases (codec : Codec) (σ : IterOrder) (state : StateManager) (address : String) (amount : U128) :
    (∃ e, state.mint codec σ address amount = (.error e, state)) ∨
      ∃ balance, state.mint codec σ address amount = (.ok balance, state.setBalance codec address balance) ∧
        balance.toNat = (state.getBalance codec address).toNat + amount.toNat ∧
        (state.totalSupply codec σ).toNat + amount.toNat ≤ maxSupply.toNat := by
  unfold StateManager.mint
  simp only
  split
  · exact .inl ⟨_, rfl⟩
  rename_i newTotal total
  split
  · exact .inl ⟨_, rfl⟩
  rename_i capped
  split
  · exact .inl ⟨_, rfl⟩
  rename_i balance fits
  refine .inr ⟨balance, rfl, (checkedAdd_eq_some.mp fits).symm, ?_⟩
  rw [checkedAdd_eq_some.mp total]
  exact Nat.le_of_not_lt capped

theorem total_applyTransfer (state : StateManager) (now : U64) {sender receiver} (amount : U128)
    (nonce timestamp : U64) (distinct : sender ≠ receiver) :
    total ((state.applyTransfer codec now sender receiver amount nonce timestamp).2.ledger codec) =
      total (state.ledger codec) := by
  rcases applyTransfer_cases codec now state sender receiver amount nonce timestamp with refused | ⟨accepted, admits⟩
  · rw [refused]
  · rw [accepted, ledger_transferred admits]
    exact total_transfer distinct admits.covered

theorem total_applyTransfers (state : StateManager) {transfers}
    (distinct : ∀ transfer ∈ transfers, transfer.sender ≠ transfer.receiver) :
    total ((state.applyTransfers codec transfers).2.ledger codec) = total (state.ledger codec) := by
  induction transfers generalizing state with
  | nil => rfl
  | cons transfer rest ih =>
    obtain ⟨here, later⟩ := forall_mem_cons.mp distinct
    rw [applyTransfers_cons]
    split
    · rename_i admits
      rw [ih _ later, ledger_transferred admits]
      exact total_transfer here admits.covered
    · rfl

/-- A block of transfers between different addresses keeps the supply,
whether it is accepted or refused at any point. -/
theorem total_applyCanonicalBlock (state : StateManager) (outside : Outside) (block : BlockArgs)
    (expectedRoot : String) {transfers}
    (distinct : ∀ transfer ∈ transfers, transfer.sender ≠ transfer.receiver) :
    total ((state.applyCanonicalBlock codec blake3 outside block expectedRoot transfers).2.ledger codec) =
      total (state.ledger codec) := by
  rcases result : state.applyCanonicalBlock codec blake3 outside block expectedRoot transfers with ⟨_ | _, after⟩
  · rw [applyCanonicalBlock_error result]
  obtain ⟨mid, loop, flushed⟩ := applyCanonicalBlock_ok result
  have moved := @total_applyTransfers codec state transfers distinct
  rw [loop] at moved
  rw [ledger_congr (getAccount_of_flush_staged flushed)]
  exact moved

/-- The supply of a session, now and at each of its checkpoints, is what was
minted, and within the cap. -/
structure Session.Balanced (codec : Codec) (session : Session) : Prop where
  total : Ledger.total (session.state.ledger codec) = session.minted
  capped : session.minted ≤ maxSupply.toNat
  saved : ∀ taken ∈ session.saved, Ledger.total (taken.1.ledger codec) = taken.2 ∧ taken.2 ≤ maxSupply.toNat

theorem empty_total : total (StateManager.empty.ledger codec) = 0 := by
  have zero : StateManager.empty.ledger codec = 0 := Finsupp.ext fun _ => rfl
  rw [zero, total_zero]

theorem Session.start_balanced : Session.start.Balanced codec :=
  ⟨empty_total, Nat.zero_le _, fun _ none => absurd none not_mem_nil⟩

theorem Session.Balanced.totalSupply (balanced : session.Balanced codec) (σ : IterOrder) :
    (session.state.totalSupply codec σ).toNat = session.minted := by
  have small : maxSupply.toNat < 2 ^ 128 := maxSupply.isLt
  rw [totalSupply_toNat, balanced.total, Nat.mod_eq_of_lt (Nat.lt_of_le_of_lt balanced.capped small)]

theorem Session.Balanced.replace (balanced : session.Balanced codec)
    (kept : Ledger.total (state.ledger codec) = Ledger.total (session.state.ledger codec)) :
    ({ session with state := state } : Session).Balanced codec :=
  ⟨kept.trans balanced.total, balanced.capped, balanced.saved⟩

theorem Session.Balanced.step {op : StateOp} (balanced : session.Balanced codec) (orderly : op.Orderly session) :
    (op.apply codec blake3 session).Balanced codec := by
  cases op with
  | mint σ address amount =>
    rw [StateOp.apply]
    rcases mint_cases codec σ session.state address amount with ⟨e, refused⟩ | ⟨balance, minted, added, cap⟩
    · rw [refused]
      exact balanced
    · rw [minted]
      have raised : Ledger.total ((session.state.setBalance codec address balance).ledger codec) =
          session.minted + amount.toNat := by
        rw [ledger_setBalance, added, ← ledger_apply, ← balanced.total]
        exact Ledger.total_mint
      rw [balanced.totalSupply σ] at cap
      exact ⟨raised, cap, balanced.saved⟩
  | applyTransfer now sender receiver amount nonce timestamp =>
    have distinct := orderly.distinct _ (mem_singleton_self _)
    exact balanced.replace (total_applyTransfer session.state now amount nonce timestamp distinct)
  | applyCanonicalBlock outside block expectedRoot transfers =>
    have distinct : ∀ transfer ∈ transfers, transfer.sender ≠ transfer.receiver :=
      fun transfer member => orderly.distinct _ (mem_map_of_mem member)
    exact balanced.replace (total_applyCanonicalBlock session.state outside block expectedRoot distinct)
  | persistCanonicalBlock outside block =>
    exact balanced.replace (congrArg _ (ledger_congr fun _ => getAccount_persistCanonicalBlock _))
  | commitBlock outside =>
    exact balanced.replace (congrArg _ (ledger_congr fun _ => getAccount_commitBlock _))
  | checkpoint =>
    refine ⟨balanced.total, balanced.capped, fun taken member => ?_⟩
    rcases mem_append.mp member with before | now
    · exact balanced.saved taken before
    · rw [mem_singleton.mp now]
      exact ⟨balanced.total, balanced.capped⟩
  | restoreCheckpoint i =>
    rw [StateOp.apply]
    split
    · rename_i taken minted found
      -- over an unchanged database the restored state is the one the checkpoint was taken of
      have restored : session.state.restoreCheckpoint taken.checkpoint = taken := by
        rw [restoreCheckpoint, ← orderly.inTime _ found]
        rfl
      obtain ⟨total, capped⟩ := balanced.saved _ (mem_of_getElem? found)
      rw [restored]
      exact ⟨total, capped, balanced.saved⟩
    · exact balanced

theorem SessionReach.balanced (reach : OrderlyReach codec blake3 session) : session.Balanced codec := by
  induction reach with
  | start => exact Session.start_balanced
  | step op _ orderly ih => exact ih.step orderly

/-- In every orderly run the supply is what was minted and not rolled back,
and within the cap; no block without self-transfers changes it, and a single
transfer changes it exactly when it is an accepted self-transfer. -/
theorem supply_conserved (reach : OrderlyReach codec blake3 session) (σ σ' : IterOrder) :
    (session.state.totalSupply codec σ).toNat = session.minted ∧
    session.minted ≤ maxSupply.toNat ∧
    (∀ now sender receiver amount nonce timestamp,
      (session.state.applyTransfer codec now sender receiver amount nonce timestamp).2.totalSupply codec σ' =
          session.state.totalSupply codec σ ↔
        ¬((session.state.applyTransfer codec now sender receiver amount nonce timestamp).1 = true ∧
          sender = receiver)) ∧
    ∀ outside block expectedRoot transfers,
      (∀ transfer ∈ transfers, transfer.sender ≠ transfer.receiver) →
      (session.state.applyCanonicalBlock codec blake3 outside block expectedRoot transfers).2.totalSupply codec σ' =
        session.state.totalSupply codec σ := by
  have balanced := reach.balanced
  refine ⟨balanced.totalSupply σ, balanced.capped, ?_, ?_⟩
  · intro now sender receiver amount nonce timestamp
    by_cases same : sender = receiver
    case neg =>
      refine iff_of_true (eq_of_toNat_eq ?_) fun both => same both.2
      rw [totalSupply_toNat, totalSupply_toNat, total_applyTransfer session.state now amount nonce timestamp same]
    subst same
    rw [and_iff_left rfl]
    rcases applyTransfer_cases codec now session.state sender sender amount nonce timestamp with
      refused | ⟨accepted, admits⟩
    · rw [refused]
      refine iff_of_true (eq_of_toNat_eq ?_) Bool.false_ne_true
      rw [totalSupply_toNat, totalSupply_toNat]
    rw [accepted]
    refine iff_of_false (fun kept => ?_) (not_not_intro rfl)
    have grown := congrArg BitVec.toNat kept
    have positive : amount.toNat ≠ 0 := fun zero => admits.positive (eq_of_toNat_eq zero)
    have covered := Nat.le_trans admits.covered (le_total (session.state.ledger codec) sender)
    rw [totalSupply_toNat, totalSupply_toNat, ledger_transferred admits, total_transfer_self] at grown
    omega
  · intro outside block expectedRoot transfers distinct
    apply eq_of_toNat_eq
    rw [totalSupply_toNat, totalSupply_toNat, total_applyCanonicalBlock session.state outside block expectedRoot distinct]

def quietly : Outside := ⟨.stored, .ok ()⟩

/-- A run with a checkpoint that is restored before the commit. -/
def sampleRun : List StateOp :=
  [.mint .stored "alice" 100, .checkpoint, .applyTransfer 1000 "alice" "bob" 40 0 990, .restoreCheckpoint 0,
    .mint .stored "bob" 5, .commitBlock quietly, .applyTransfer 1000 "bob" "alice" 5 0 1000]

theorem sampleRun_reach :
    OrderlyReach fixedWidthCodec markedHash (sampleRun.foldl (StateOp.apply fixedWidthCodec markedHash) .start) := by
  simp only [sampleRun, foldl_cons, foldl_nil]
  refine .step _ (.step _ (.step _ (.step _ (.step _ (.step _ (.step _ .start ?_) ?_) ?_) ?_) ?_) ?_) ?_
  all_goals refine ⟨by decide, ?_⟩
  all_goals try exact trivial
  intro taken found
  cases found
  rfl

theorem sampleRun_supply :
    ((sampleRun.foldl (StateOp.apply fixedWidthCodec markedHash) .start).state.totalSupply fixedWidthCodec
      .stored).toNat = 105 := by
  rw [(supply_conserved sampleRun_reach .stored .stored).1]
  decide

/-- Alice holds 100, pays 40 to herself, and holds 140. -/
theorem self_transfer_inflates :
    let before := (StateOp.mint .stored "alice" 100).apply fixedWidthCodec markedHash .start
    let (accepted, after) := before.state.applyTransfer fixedWidthCodec 1000 "alice" "alice" 40 0 1000
    accepted = true ∧ before.minted = 100 ∧ before.state.totalSupply fixedWidthCodec .stored = 100 ∧
      after.totalSupply fixedWidthCodec .stored = 140 := by
  decide

-- A checkpoint from before a commit brings back the sender's old balance only.
example :
    (([.mint .stored "alice" 100, .checkpoint, .applyTransfer 1000 "alice" "bob" 40 0 1000, .commitBlock quietly,
      .restoreCheckpoint 0] : List StateOp).foldl (StateOp.apply fixedWidthCodec markedHash) .start).state.totalSupply
        fixedWidthCodec .stored = 140 := by
  decide

end Bleep
