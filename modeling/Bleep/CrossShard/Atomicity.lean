import Bleep.CrossShard.TwoPhaseCommit
import Bleep.Library.Runs

namespace Bleep

open HashTable OrderedStore CoordinatorCall AList CoordinatorManager

variable {encode : VoteEncoder} {sphincs : AttachedSphincs} {call : CoordinatorCall}

def CrossShardTransactionStatus.Aborted (status : CrossShardTransactionStatus) : Prop :=
  status = .abortedPrepare ∨ status = .abortedTimeout ∨ status = .abortedEpochBoundary

namespace TwoPhaseCommitCoordinator

variable {self : TwoPhaseCommitCoordinator}

def voteRefusal (self : TwoPhaseCommitCoordinator) (vote : PrepareVote) : String :=
  if vote.transactionId ≠ self.transaction.id then "Vote is for different transaction" else "Vote signature invalid"

theorem receivePrepareVote_eq (self : TwoPhaseCommitCoordinator) (vote : PrepareVote) :
    self.receivePrepareVote encode sphincs vote = (.error (self.voteRefusal vote), self) := by
  -- No key can verify a vote when none is given.
  have unverified : vote.verifySignature encode sphincs [] = false := by
    unfold PrepareVote.verifySignature
    split
    · rfl
    · simp only
      split <;> rfl
  rw [receivePrepareVote, voteRefusal, unverified]
  split <;> rfl

theorem executeCommit_of_phase (phase : self.phase ≠ .readyToCommit) :
    self.executeCommit = (.error s!"Cannot commit in phase {self.phase.debug}", self) := by
  rw [executeCommit, if_pos phase]

theorem finalizeCommit_cases (self : TwoPhaseCommitCoordinator) (receipts : HashMap ShardId CrossShardReceipt) :
    (∃ text, self.finalizeCommit receipts = (.error text, self)) ∨
      ∃ after, self.finalizeCommit receipts = (.ok (), after) ∧ after.lifecycle.status = .committed ∧
        after.phase = .terminal := by
  rw [finalizeCommit]
  cases self.transaction.involvedShards.forM (receiptPresent receipts) with
  | error text => exact .inl ⟨text, rfl⟩
  | ok u =>
    cases (ascending (· ≤ ·) receipts).forM receiptSuccessful with
    | error text => exact .inl ⟨text, rfl⟩
    | ok u => exact .inr ⟨_, rfl, rfl, rfl⟩

end TwoPhaseCommitCoordinator

open TwoPhaseCommitCoordinator

namespace CoordinatorManager

variable {self : CoordinatorManager} {id : TransactionId} {coordinator : TwoPhaseCommitCoordinator}

/-- The status of a transaction: that of its coordinator, or the archived one. -/
def statusOf (self : CoordinatorManager) (id : TransactionId) : Option CrossShardTransactionStatus :=
  match self.coordinators.lookup id with
  | some coordinator => some coordinator.lifecycle.status
  | none => (self.terminalTransactions.lookup id).map CoordinatorStateSnapshot.status

/-- Every involved shard has a recorded vote, and it is to commit. -/
def Prepared (self : CoordinatorManager) (id : TransactionId) : Prop :=
  ∃ coordinator, self.coordinators.lookup id = some coordinator ∧
    ∀ shard ∈ coordinator.transaction.involvedShards, ∃ vote,
      coordinator.lifecycle.prepareVotes.lookup shard = some vote ∧ vote.canCommit = true

/-- The transaction has come to its end, archived or not. -/
def Ended (self : CoordinatorManager) (id : TransactionId) : Prop :=
  (∃ coordinator, self.coordinators.lookup id = some coordinator ∧ coordinator.isTerminal = true) ∨
    ∃ snapshot, self.terminalTransactions.lookup id = some snapshot

def Aborted (self : CoordinatorManager) (id : TransactionId) : Prop :=
  ∃ status, self.statusOf id = some status ∧ status.Aborted

/-- The manager has heard of the transaction. -/
def Knows (self : CoordinatorManager) (id : TransactionId) : Prop :=
  (∃ coordinator, self.coordinators.lookup id = some coordinator) ∨
    ∃ snapshot, self.terminalTransactions.lookup id = some snapshot

theorem Ended.knows (ended : self.Ended id) : self.Knows id :=
  ended.imp_left fun ⟨coordinator, found, _⟩ => ⟨coordinator, found⟩

/-- All coordinators satisfy one predicate and all snapshots another. -/
structure All (active : TwoPhaseCommitCoordinator → Prop) (archived : CoordinatorStateSnapshot → Prop)
    (manager : CoordinatorManager) : Prop where
  active : ∀ id coordinator, manager.coordinators.lookup id = some coordinator → active coordinator
  archived : ∀ id snapshot, manager.terminalTransactions.lookup id = some snapshot → archived snapshot

section Steps

variable {active : TwoPhaseCommitCoordinator → Prop} {archived : CoordinatorStateSnapshot → Prop}

theorem All.insert (all : All active archived self)
    (holds : active coordinator) :
    All active archived { self with coordinators := self.coordinators.insert id coordinator } where
  active other found present := by
    rcases lookup_insert_cases present with ⟨rfl, rfl⟩ | ⟨-, present⟩
    · exact holds
    · exact all.active other found present
  archived := all.archived

theorem Knows.insert (known : self.Knows id) (other : TransactionId) (coordinator : TwoPhaseCommitCoordinator) :
    Knows { self with coordinators := self.coordinators.insert other coordinator } id := by
  refine known.imp_left fun ⟨before, found⟩ => ?_
  rw [lookup_insert_eq]
  split
  · exact ⟨coordinator, rfl⟩
  · exact ⟨before, found⟩

theorem All.onCoordinator {α : Type} (all : All active archived self)
    {operation : TwoPhaseCommitCoordinator → Except String α × TwoPhaseCommitCoordinator}
    (keeps : ∀ coordinator, self.coordinators.lookup id = some coordinator → active coordinator →
      active (operation coordinator).2) :
    All active archived (self.onCoordinator id operation).2 := by
  rw [CoordinatorManager.onCoordinator]
  cases found : self.coordinators.lookup id with
  | none => exact all
  | some coordinator => exact all.insert (keeps coordinator found (all.active id coordinator found))

theorem Knows.onCoordinator {α : Type} (known : self.Knows id) (other : TransactionId)
    (operation : TwoPhaseCommitCoordinator → Except String α × TwoPhaseCommitCoordinator) :
    Knows (self.onCoordinator other operation).2 id := by
  rw [CoordinatorManager.onCoordinator]
  cases self.coordinators.lookup other with
  | none => exact known
  | some coordinator => exact known.insert other _

theorem All.archive (all : All active archived self) {close}
    (closes : ∀ coordinator, active coordinator → archived (close coordinator).getStateSnapshot)
    (ids : List TransactionId) : All active archived (self.archive close ids) := by
  induction ids generalizing self with
  | nil => exact all
  | cons id ids ih =>
    rw [archive, List.foldl_cons, ← archive]
    cases found : self.coordinators.lookup id with
    | none => exact ih all
    | some coordinator =>
      refine ih ⟨fun other later present => ?_, fun other snapshot present => ?_⟩
      · by_cases here : other = id
        · subst here
          rw [lookup_erase] at present
          cases present
        · rw [lookup_erase_ne here] at present
          exact all.active other later present
      · rcases lookup_insert_cases present with ⟨rfl, rfl⟩ | ⟨-, present⟩
        · exact closes coordinator (all.active _ coordinator found)
        · exact all.archived other snapshot present

theorem Knows.archive (known : self.Knows id) (close : TwoPhaseCommitCoordinator → TwoPhaseCommitCoordinator)
    (ids : List TransactionId) : Knows (self.archive close ids) id := by
  induction ids generalizing self with
  | nil => exact known
  | cons first ids ih =>
    rw [archive, List.foldl_cons, ← archive]
    cases found : self.coordinators.lookup first with
    | none => exact ih known
    | some coordinator =>
      refine ih ?_
      by_cases here : id = first
      · subst here
        exact .inr ⟨_, lookup_insert _⟩
      · rcases known with ⟨before, present⟩ | ⟨snapshot, present⟩
        · exact .inl ⟨before, (lookup_erase_ne here).trans present⟩
        · exact .inr ⟨snapshot, (lookup_insert_ne here).trans present⟩

theorem all_new : All active archived new := by
  constructor
  · intro id coordinator found
    cases found
  · intro id snapshot found
    cases found

end Steps

/-- No coordinator has collected the votes. -/
def Unready : CoordinatorManager → Prop := All (fun coordinator => coordinator.phase ≠ .readyToCommit) fun _ => True

def Uncommitted : CoordinatorManager → Prop :=
  All (fun coordinator => coordinator.lifecycle.status ≠ .committed) fun snapshot => snapshot.status ≠ .committed

theorem registerTransaction_cases (self : CoordinatorManager) (transaction : CrossShardTransaction)
    (timeoutHeight : U64) :
    (∃ text, self.registerTransaction transaction timeoutHeight = (.error text, self)) ∨
      ∃ shard, self.coordinators.lookup transaction.id = none ∧
        self.registerTransaction transaction timeoutHeight = (.ok shard, { self with
          coordinators := self.coordinators.insert transaction.id
            (.new transaction shard self.currentHeight timeoutHeight) }) := by
  rw [registerTransaction]
  cases found : self.coordinators.lookup transaction.id with
  | some coordinator => exact .inl ⟨_, rfl⟩
  | none =>
    cases transaction.getCoordinatorShard with
    | error text => exact .inl ⟨text, rfl⟩
    | ok shard => exact .inr ⟨shard, rfl, rfl⟩

theorem onCoordinator_of_lookup {α : Type}
    {operation : TwoPhaseCommitCoordinator → Except String α × TwoPhaseCommitCoordinator}
    (found : self.coordinators.lookup id = some coordinator) :
    self.onCoordinator id operation = ((operation coordinator).1,
      { self with coordinators := self.coordinators.insert id (operation coordinator).2 }) := by
  rw [onCoordinator, found]

/-- The first vote to be accepted would make the coordinator ready; none is. -/
theorem Unready.executeCommit (unready : self.Unready) (id : TransactionId) : (self.executeCommit id).1 ≠ .ok () := by
  cases found : self.coordinators.lookup id with
  | none =>
    simp [CoordinatorManager.executeCommit, onCoordinator, found]
  | some coordinator =>
    have refused := executeCommit_of_phase (unready.active id coordinator found)
    simp [CoordinatorManager.executeCommit, onCoordinator_of_lookup found, refused]

theorem Uncommitted.statusOf (uncommitted : self.Uncommitted) (id : TransactionId) :
    self.statusOf id ≠ some .committed := by
  rw [CoordinatorManager.statusOf]
  cases found : self.coordinators.lookup id with
  | some coordinator =>
    intro same
    exact uncommitted.active id coordinator found (Option.some.inj same)
  | none =>
    intro same
    obtain ⟨snapshot, archived, status⟩ := Option.map_eq_some_iff.mp same
    exact uncommitted.archived id snapshot archived status

theorem statusOf_finalizeCommit {receipts : HashMap ShardId CrossShardReceipt}
    (finalized : (self.finalizeCommit id receipts).1 = .ok ()) :
    (self.finalizeCommit id receipts).2.statusOf id = some .committed := by
  cases found : self.coordinators.lookup id with
  | none =>
    rw [finalizeCommit, onCoordinator, found] at finalized
    cases finalized
  | some coordinator =>
    rw [finalizeCommit, onCoordinator_of_lookup found] at finalized ⊢
    rcases coordinator.finalizeCommit_cases receipts with ⟨text, failed⟩ | ⟨after, done, committed, -⟩
    · rw [failed] at finalized
      cases finalized
    · rw [statusOf, lookup_insert, done]
      exact congrArg some committed

end CoordinatorManager

namespace CoordinatorCall

open CoordinatorManager

variable {self : CoordinatorManager} {id : TransactionId}

/-- What new and aborted coordinators satisfy and the steps of a commit keep
holds of all coordinators after every call. -/
theorem all_apply {active : TwoPhaseCommitCoordinator → Prop} {archived : CoordinatorStateSnapshot → Prop}
    (all : All active archived self)
    (fresh : ∀ transaction shard start timeout, active (.new transaction shard start timeout))
    (commits : ∀ coordinator, active coordinator → active coordinator.executeCommit.2)
    (finalizes : ∀ id receipts, call = .finalizeCommit id receipts → ∀ coordinator,
      self.coordinators.lookup id = some coordinator → active coordinator → active (coordinator.finalizeCommit receipts).2)
    (aborts : ∀ coordinator reason, active (TwoPhaseCommitCoordinator.executeAbort coordinator reason))
    (closes : ∀ coordinator, active coordinator → archived coordinator.getStateSnapshot) :
    All active archived (call.apply encode sphincs self) := by
  cases call with
  | registerTransaction transaction timeoutHeight =>
    rw [apply]
    rcases self.registerTransaction_cases transaction timeoutHeight with ⟨text, failed⟩ | ⟨shard, -, done⟩
    · rw [failed]
      exact all
    · rw [done]
      exact all.insert (fresh ..)
  | processPrepareVote transactionId vote =>
    refine all.onCoordinator fun coordinator _ holds => ?_
    rw [coordinator.receivePrepareVote_eq]
    exact holds
  | executeCommit transactionId => exact all.onCoordinator fun coordinator _ => commits coordinator
  | finalizeCommit transactionId receipts => exact all.onCoordinator (finalizes transactionId receipts rfl)
  | executeAbort transactionId reason => exact all.onCoordinator fun coordinator _ _ => aborts coordinator reason
  | advanceBlock newHeight =>
    have turned : All active archived { self with currentHeight := newHeight } := ⟨all.active, all.archived⟩
    exact (turned.archive (fun coordinator _ => closes _ (aborts coordinator _)) _).archive closes _

theorem unready_apply (unready : self.Unready) (call : CoordinatorCall) : (call.apply encode sphincs self).Unready := by
  refine all_apply unready (by simp [TwoPhaseCommitCoordinator.new]) ?_ ?_
    (by simp [TwoPhaseCommitCoordinator.executeAbort]) fun _ _ => trivial
  · intro coordinator holds
    rw [TwoPhaseCommitCoordinator.executeCommit_of_phase holds]
    exact holds
  · intro id receipts _ coordinator _ holds
    rcases coordinator.finalizeCommit_cases receipts with ⟨text, failed⟩ | ⟨after, done, -, phase⟩
    · rw [failed]
      exact holds
    · simp [done, phase]

theorem knows_apply (known : self.Knows id) (call : CoordinatorCall) : (call.apply encode sphincs self).Knows id := by
  cases call with
  | registerTransaction transaction timeoutHeight =>
    rw [apply]
    rcases self.registerTransaction_cases transaction timeoutHeight with ⟨text, failed⟩ | ⟨shard, -, done⟩
    · rw [failed]
      exact known
    · rw [done]
      exact known.insert _ _
  | processPrepareVote transactionId vote => exact known.onCoordinator _ _
  | executeCommit transactionId => exact known.onCoordinator _ _
  | finalizeCommit transactionId receipts => exact known.onCoordinator _ _
  | executeAbort transactionId reason => exact known.onCoordinator _ _
  | advanceBlock newHeight =>
    have turned : Knows { self with currentHeight := newHeight } id := known
    exact (turned.archive _ _).archive _ _

/-- Nothing is finalized, and no archived transaction is registered again. -/
def Fits (self : CoordinatorManager) : CoordinatorCall → Prop
  | finalizeCommit transactionId receipts => (self.finalizeCommit transactionId receipts).1 ≠ .ok ()
  | registerTransaction transaction timeoutHeight =>
      (∃ shard, (self.registerTransaction transaction timeoutHeight).1 = .ok shard) →
        self.terminalTransactions.lookup transaction.id = none
  | _ => True

theorem uncommitted_apply (uncommitted : self.Uncommitted) (fits : call.Fits self) :
    (call.apply encode sphincs self).Uncommitted := by
  refine all_apply uncommitted (by simp [TwoPhaseCommitCoordinator.new, CrossShardTransactionLifecycle.new]) ?_ ?_
    (by simp [TwoPhaseCommitCoordinator.executeAbort]) fun _ holds => holds
  · intro coordinator holds
    rw [TwoPhaseCommitCoordinator.executeCommit]
    split <;> exact holds
  · rintro id receipts rfl coordinator found holds
    rcases coordinator.finalizeCommit_cases receipts with ⟨text, failed⟩ | ⟨after, done, -⟩
    · rw [failed]
      exact holds
    · rw [Fits, CoordinatorManager.finalizeCommit, onCoordinator_of_lookup found, done] at fits
      exact absurd rfl fits

end CoordinatorCall

section Law

variable (encode sphincs) (calls : List CoordinatorCall)

/-- The manager before the `n`-th call. -/
def managerAt (n : Nat) : CoordinatorManager := new.run encode sphincs (calls.take n)

/-- The `n`-th call is an `execute_commit` that succeeds. -/
def CommitExecuted (n : Nat) (id : TransactionId) : Prop :=
  calls[n]? = some (.executeCommit id) ∧ ((managerAt encode sphincs calls n).executeCommit id).1 = .ok ()

/-- Cross-shard commit is atomic and final along a run. -/
structure AtomicCommit : Prop where
  unanimous : ∀ n id, (managerAt encode sphincs calls n).statusOf id ≠ some .committed →
    (managerAt encode sphincs calls (n + 1)).statusOf id = some .committed →
      (managerAt encode sphincs calls n).Prepared id ∧ ∃ m < n, CommitExecuted encode sphincs calls m id
  committed : ∀ n m id, n ≤ m → (managerAt encode sphincs calls n).statusOf id = some .committed →
    ¬ (managerAt encode sphincs calls m).Aborted id
  aborted : ∀ n m id, n ≤ m → (managerAt encode sphincs calls n).Aborted id →
    (managerAt encode sphincs calls m).statusOf id ≠ some .committed
  decided : ∀ n m id height, n < m → CommitExecuted encode sphincs calls n id →
    calls[m]? = some (.advanceBlock height) → ¬ (managerAt encode sphincs calls m).Aborted id →
      ¬ (managerAt encode sphincs calls (m + 1)).Aborted id
  ended : ∀ n m transaction timeoutHeight, n ≤ m → (managerAt encode sphincs calls n).Ended transaction.id →
    calls[m]? = some (.registerTransaction transaction timeoutHeight) →
      ∀ shard, ((managerAt encode sphincs calls m).registerTransaction transaction timeoutHeight).1 ≠ .ok shard

variable {calls}

theorem unready_managerAt (n : Nat) : (managerAt encode sphincs calls n).Unready := by
  exact @Runs.foldl_take_mono _ _ _ _ calls Unready
    (fun self call unready => unready_apply unready call) 0 n (Nat.zero_le n)
    all_new

theorem not_commitExecuted (n : Nat) (id : TransactionId) : ¬ CommitExecuted encode sphincs calls n id :=
  fun executed => (unready_managerAt encode sphincs n).executeCommit id executed.2

theorem managerAt_succ {n} (here : calls[n]? = some call) :
    managerAt encode sphincs calls (n + 1) = call.apply encode sphincs (managerAt encode sphincs calls n) :=
  Runs.foldl_take_succ here

/-- Unanimity leaves nothing to commit: no vote is ever recorded. -/
theorem AtomicCommit.never_committed (atomic : AtomicCommit encode sphincs calls) (n : Nat) (id : TransactionId) :
    (managerAt encode sphincs calls n).statusOf id ≠ some .committed := by
  induction n with
  | zero =>
    intro committed
    cases committed
  | succ n ih =>
    intro committed
    obtain ⟨-, m, -, executed⟩ := atomic.unanimous n id ih committed
    exact not_commitExecuted encode sphincs m id executed

section Fits

variable (fits : ∀ n (call : CoordinatorCall), calls[n]? = some call → call.Fits (managerAt encode sphincs calls n))

include fits

theorem uncommitted_managerAt (n : Nat) : (managerAt encode sphincs calls n).Uncommitted :=
  @Runs.foldl_take_keeps _ _ _ _ _ CoordinatorManager.Uncommitted 0 n (Nat.zero_le n) all_new
    fun k call _ _ here held => uncommitted_apply held (fits k call here)

theorem ended_not_registered {n m transaction timeoutHeight}
    (before : n ≤ m) (known : (managerAt encode sphincs calls n).Knows transaction.id)
    (here : calls[m]? = some (.registerTransaction transaction timeoutHeight)) (shard : ShardId) :
    ((managerAt encode sphincs calls m).registerTransaction transaction timeoutHeight).1 ≠ .ok shard := by
  intro registered
  have still : (managerAt encode sphincs calls m).Knows transaction.id :=
    @Runs.foldl_take_mono _ _ _ _ calls (fun self : CoordinatorManager => self.Knows transaction.id)
      (fun self call known => knows_apply known call) n m before known
  have unarchived := fits m _ here ⟨shard, registered⟩
  rcases (managerAt encode sphincs calls m).registerTransaction_cases transaction timeoutHeight with
    ⟨text, failed⟩ | ⟨_, absent, -⟩
  · rw [failed] at registered
    cases registered
  · rcases still with ⟨coordinator, found⟩ | ⟨snapshot, found⟩
    · rw [absent] at found
      cases found
    · rw [unarchived] at found
      cases found

end Fits

/-- Cross-shard commit is atomic and final along a run exactly when nothing is
finalized and no archived transaction is registered again: no vote is ever
recorded, so a transaction that becomes committed does so unprepared. -/
theorem commit_atomic_iff (calls : List CoordinatorCall) :
    AtomicCommit encode sphincs calls ↔
      ∀ n (call : CoordinatorCall), calls[n]? = some call → call.Fits (managerAt encode sphincs calls n) := by
  constructor
  · intro atomic n call here
    cases call with
    | finalizeCommit transactionId receipts =>
      intro finalized
      refine atomic.never_committed encode sphincs (n + 1) transactionId ?_
      rw [managerAt_succ encode sphincs here]
      exact statusOf_finalizeCommit finalized
    | registerTransaction transaction timeoutHeight =>
      rintro ⟨shard, registered⟩
      cases found : (managerAt encode sphincs calls n).terminalTransactions.lookup transaction.id with
      | none => rfl
      | some snapshot =>
        exact absurd registered (atomic.ended n n transaction timeoutHeight le_rfl (.inr ⟨snapshot, found⟩) here shard)
    | processPrepareVote transactionId vote => trivial
    | executeCommit transactionId => trivial
    | executeAbort transactionId reason => trivial
    | advanceBlock newHeight => trivial
  · intro fits
    have uncommitted := uncommitted_managerAt encode sphincs fits
    refine ⟨?_, ?_, ?_, ?_, ?_⟩
    · exact fun n id _ committed => absurd committed ((uncommitted (n + 1)).statusOf id)
    · exact fun n m id _ committed => absurd committed ((uncommitted n).statusOf id)
    · exact fun n m id _ _ => (uncommitted m).statusOf id
    · exact fun n m id height _ executed => absurd executed (not_commitExecuted encode sphincs n id)
    · exact fun n m transaction timeoutHeight before ended here =>
        ended_not_registered encode sphincs fits before ended.knows here

/-- Along every run all votes are refused, with or without a signature of the
shard, and no commit is executed. -/
theorem prepare_votes_refused (calls : List CoordinatorCall) (transactionId : TransactionId) (vote : PrepareVote) :
    (∀ coordinator, (CoordinatorManager.new.run encode sphincs calls).coordinators.lookup transactionId =
        some coordinator → vote.transactionId = coordinator.transaction.id →
      ((CoordinatorManager.new.run encode sphincs calls).processPrepareVote encode sphincs transactionId vote).1 =
        .error "Vote signature invalid") ∧
    (∀ decision, ((CoordinatorManager.new.run encode sphincs calls).processPrepareVote encode sphincs
      transactionId vote).1 ≠ .ok decision) ∧
    ((CoordinatorManager.new.run encode sphincs calls).executeCommit transactionId).1 ≠ .ok () := by
  have refused {coordinator : TwoPhaseCommitCoordinator}
      (found : (CoordinatorManager.new.run encode sphincs calls).coordinators.lookup transactionId = some coordinator) :
      ((CoordinatorManager.new.run encode sphincs calls).processPrepareVote encode sphincs transactionId vote).1 =
        .error (coordinator.voteRefusal vote) := by
    rw [CoordinatorManager.processPrepareVote, CoordinatorManager.onCoordinator_of_lookup found,
      coordinator.receivePrepareVote_eq]
  refine ⟨fun coordinator found same => ?_, fun decision accepted => ?_, ?_⟩
  · rw [refused found, voteRefusal, if_neg (not_not_intro same)]
  · cases found : (CoordinatorManager.new.run encode sphincs calls).coordinators.lookup transactionId with
    | none =>
      rw [CoordinatorManager.processPrepareVote, CoordinatorManager.onCoordinator, found] at accepted
      cases accepted
    | some coordinator =>
      rw [refused found] at accepted
      cases accepted
  · have unready := @unready_managerAt encode sphincs calls calls.length
    rw [managerAt, List.take_length] at unready
    exact unready.executeCommit transactionId

end Law

/-- Signed messages that open with the key they start with. -/
def prefixSphincs : AttachedSphincs where
  publicKey _ := .ok ()
  secretKey _ := .ok ()
  signedMessage _ := .ok ()
  sign message secretKey := secretKey ++ message
  opens signedMessage publicKey := publicKey.isPrefixOf signedMessage

def emptyEncoder : VoteEncoder := fun _ => .ok []

def loneTransaction : CrossShardTransaction :=
  ⟨.compute lastBytes [1] 0, [1], [0], .new lastBytes [0], 1, 0, [], .pending⟩

def loneVote : PrepareVote := ⟨loneTransaction.id, 0, true, some 1, none, [], 0⟩

/-- The vote of the only shard, properly signed, is refused. -/
theorem loneVote_refused :
    CrossShardTransaction.new lastBytes [1] [0] 1 0 = .ok loneTransaction ∧
    ∃ vote manager, loneVote.sign emptyEncoder prefixSphincs [7] = .ok vote ∧
      vote.verifySignature emptyEncoder prefixSphincs [[7]] = true ∧
      new.registerTransaction loneTransaction 10 = (.ok 0, manager) ∧
      (manager.processPrepareVote emptyEncoder prefixSphincs loneTransaction.id vote).1 =
        .error "Vote signature invalid" ∧
      ((manager.processPrepareVote emptyEncoder prefixSphincs loneTransaction.id vote).2.executeCommit
        loneTransaction.id).1 = .error "Cannot commit in phase PreparingPhase" := by
  refine ⟨rfl, _, _, rfl, ?_, rfl, ?_, ?_⟩
  all_goals rfl

def loneReceipts : HashMap ShardId CrossShardReceipt :=
  AList.insert 0 ⟨loneTransaction.id, 0, 1, .committed, "", []⟩ ∅

/-- Finalized without a vote, aborted, finalized again, archived and registered
once more. -/
def unpreparedCommit : List CoordinatorCall :=
  [.registerTransaction loneTransaction 10, .finalizeCommit loneTransaction.id loneReceipts,
    .executeAbort loneTransaction.id "late", .finalizeCommit loneTransaction.id loneReceipts, .advanceBlock 1,
    .registerTransaction loneTransaction 10]

theorem unpreparedCommit_not_atomic :
    (managerAt emptyEncoder prefixSphincs unpreparedCommit 1).statusOf loneTransaction.id = some .pending ∧
    ¬ (managerAt emptyEncoder prefixSphincs unpreparedCommit 1).Prepared loneTransaction.id ∧
    (managerAt emptyEncoder prefixSphincs unpreparedCommit 2).statusOf loneTransaction.id = some .committed ∧
    (managerAt emptyEncoder prefixSphincs unpreparedCommit 3).statusOf loneTransaction.id = some .abortedPrepare ∧
    (managerAt emptyEncoder prefixSphincs unpreparedCommit 4).statusOf loneTransaction.id = some .committed ∧
    (managerAt emptyEncoder prefixSphincs unpreparedCommit 5).Ended loneTransaction.id ∧
    ((managerAt emptyEncoder prefixSphincs unpreparedCommit 5).registerTransaction loneTransaction 10).1 = .ok 0 := by
  refine ⟨rfl, ?_, rfl, rfl, rfl, .inr ⟨_, rfl⟩, rfl⟩
  rintro ⟨coordinator, found, voted⟩
  obtain rfl := Option.some.inj found
  obtain ⟨vote, recorded, -⟩ := voted 0 (by decide)
  cases recorded

end Bleep
