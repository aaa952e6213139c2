import Bleep.Connect.InstantLayer

namespace Bleep.Connect

open HashTable Results Layer4Instant IntentPool AList InstantCall

structure Transfer where
  intent : Option InstantIntent
  status : Option TransferStatus
  start : Option U64

open Transfer

namespace Transfer

variable {pool : IntentPool} {starts : HashMap Hash32 U64} {id other : Hash32} {status : TransferStatus}

def of (pool : IntentPool) (starts : HashMap Hash32 U64) (id : Hash32) : Transfer :=
  ⟨pool.intents.lookup id, pool.statuses.lookup id, starts.lookup id⟩

theorem of_updateStatus : of (pool.updateStatus id status) starts id = { of pool starts id with status := some status } := by
  rw [of, updateStatus, lookup_insert]
  rfl

theorem of_updateStatus_ne (differs : other ≠ id) : of (pool.updateStatus id status) starts other = of pool starts other := by
  rw [of, updateStatus, lookup_insert_ne differs]
  rfl

theorem of_insert {start} : of pool (starts.insert id start) id = { of pool starts id with start := some start } := by
  rw [of, lookup_insert]
  rfl

theorem of_insert_ne {start} (differs : other ≠ id) :
    of pool (starts.insert id start) other = of pool starts other := by
  rw [of, lookup_insert_ne differs]
  rfl

theorem of_erase : of pool (starts.erase id) id = { of pool starts id with start := none } := by
  rw [of, lookup_erase]
  rfl

theorem of_erase_ne (differs : other ≠ id) : of pool (starts.erase id) other = of pool starts other := by
  rw [of, lookup_erase_ne differs]
  rfl

theorem of_remove : of (pool.remove id) starts id = { of pool starts id with intent := none } := by
  rw [of, remove, lookup_erase]
  rfl

theorem of_remove_ne (differs : other ≠ id) : of (pool.remove id) starts other = of pool starts other := by
  rw [of, remove, lookup_erase_ne differs]
  rfl

end Transfer

namespace Layer4Instant

/-- What the layer holds of the transfer with an id. -/
def transfer (self : Layer4Instant) (id : Hash32) : Transfer := .of self.intentPool self.executionStarts id

/-- The intent that a proof is for, when the proof delivers enough. -/
def delivered (self : Layer4Instant) (proof : ExecutionProof) : Option InstantIntent :=
  (self.transfer proof.intentId).intent.filter fun intent => decide (intent.minDestAmount ≤ proof.destAmountDelivered)

end Layer4Instant

namespace InstantCall

variable (sha256 : Bytes → Hash32) (self : Layer4Instant)

/-- The intent that a submission puts into the pool. -/
def accepts : InstantCall → Option InstantIntent
  | submitIntent clock moment _ intent =>
    let intent := Layer4Instant.withExpiry (clock 0) intent
    if (self.checkEscrow moment intent).isOk && !intent.isExpired (clock 1) then some intent else none
  | _ => none

/-- The proof by which a call completes a transfer. -/
def completing : InstantCall → Option ExecutionProof
  | submitExecutionProof clock _ proof =>
    if (self.delivered proof).isSome && !self.timedOut (clock 0) proof.intentId then some proof else none
  | _ => none

/-- The proof by which a call has `slash_bond` and `record_failure` applied. -/
def penalizing : InstantCall → Option ExecutionProof
  | submitExecutionProof clock _ proof =>
    if (self.delivered proof).isSome && self.timedOut (clock 0) proof.intentId then some proof else none
  | _ => none

/-- The calls that may start the execution of a transfer. -/
def closes (id : Hash32) : InstantCall → Prop
  | closeAuction clock intentId => intentId = id ∧ (self.closeAuction clock id).1 = .ok ()
  | sweep .. => ∃ openedAt bidsReceived, (self.transfer id).status = some (.auctionOpen openedAt bidsReceived)
  | _ => False

/-- All that a call can do to one transfer. -/
inductive Effect (call : InstantCall) (id : Hash32) : Transfer → Prop
  | unchanged : Effect call id (self.transfer id)
  | submitted {intent : InstantIntent} (openedAt : U64) (accepted : call.accepts self = some intent)
      (is : intent.calculateId sha256 = id) :
      Effect call id { self.transfer id with intent := some intent, status := some (.auctionOpen openedAt 0) }
  | bidCounted {openedAt : U64} {bidsReceived : U32}
      (opened : (self.transfer id).status = some (.auctionOpen openedAt bidsReceived)) :
      Effect call id { self.transfer id with status := some (.auctionOpen openedAt (bidsReceived + 1)) }
  | started (executor : UniversalAddress) (startedAt start : U64) (closed : call.closes self id) :
      Effect call id
        { self.transfer id with status := some (.executionStarted executor startedAt), start := some start }
  | failed (reason : FailureReason) (failedAt : U64) :
      Effect call id { self.transfer id with status := some (.failed reason failedAt) }
  | swept (failedAt : U64) :
      Effect call id { self.transfer id with status := some (.failed .executorTimeout failedAt), start := none }
  | completed {proof : ExecutionProof} (completes : call.completing self = some proof) (is : proof.intentId = id) :
      Effect call id { self.transfer id with
        status := some (.executionCompleted proof.executor proof.destTxHash proof.completedAt) }
  | settled {proof : ExecutionProof} (completes : call.completing self = some proof) (is : proof.intentId = id) :
      Effect call id ⟨none, some (.executionCompleted proof.executor proof.destTxHash proof.completedAt), none⟩

end InstantCall

namespace Layer4Instant

variable {sha256 : Bytes → Hash32} {self : Layer4Instant} {id other : Hash32}

/-- An accepted submission opens the auction of its intent, whatever became of
the transfer before. -/
theorem submitIntent_cases (sha256 : Bytes → Hash32) (self : Layer4Instant) (clock : Clock) (moment : Nat) (disk : Disk)
    (intent : InstantIntent) :
    let call : InstantCall := .submitIntent clock moment disk intent
    (call.accepts self = none ∧ call.apply sha256 self = self) ∨
      ∃ stored, call.accepts self = some stored ∧
        (∀ id, id ≠ stored.calculateId sha256 → (call.apply sha256 self).transfer id = self.transfer id) ∧
        (call.apply sha256 self).transfer (stored.calculateId sha256) = { self.transfer (stored.calculateId sha256) with
          intent := some stored, status := some (.auctionOpen (clock 3) 0) } := by
  simp only [apply, accepts, submitIntent]
  cases checked : self.checkEscrow moment (withExpiry (clock 0) intent) with
  | error e => exact .inl ⟨rfl, rfl⟩
  | ok =>
    simp only [bind, Except.bind, add]
    cases expired : (withExpiry (clock 0) intent).isExpired (clock 1) with
    | true => exact .inl ⟨rfl, rfl⟩
    | false =>
      simp only [Bool.false_eq_true, if_false, transfer]
      refine .inr ⟨_, rfl, fun id differs => ?_, ?_⟩
      · rw [of_updateStatus_ne differs, of_updateStatus_ne differs, of,
          lookup_insert_ne differs, lookup_insert_ne differs]
        rfl
      · rw [of_updateStatus, of_updateStatus, of, lookup_insert]
        rfl

theorem submitIntent_effect (clock : Clock) (moment : Nat) (disk : Disk) (intent : InstantIntent) (id : Hash32) :
    Effect sha256 self (.submitIntent clock moment disk intent) id
      ((self.submitIntent sha256 clock moment disk intent).2.transfer id) := by
  rcases submitIntent_cases sha256 self clock moment disk intent with ⟨-, same⟩ | ⟨stored, accepted, others, here⟩
  · rw [apply] at same
    rw [same]
    exact .unchanged
  · by_cases is : id = stored.calculateId sha256
    · have effect := @Effect.submitted sha256 self _ id _ (clock 3) accepted is.symm
      rw [is] at effect ⊢
      rw [← here] at effect
      exact effect
    · have same := others id is
      rw [apply] at same
      rw [same]
      exact .unchanged

theorem placeBid_effect (bid : ExecutorBid) (id : Hash32) :
    Effect sha256 self (.placeBid bid) id ((self.placeBid sha256 bid).2.transfer id) := by
  unfold placeBid
  split
  · exact .unchanged
  rename_i intent found
  split
  · exact .unchanged
  split
  · exact .unchanged
  unfold countBid
  split
  · rename_i openedAt bidsReceived opened
    by_cases here : id = intent.calculateId sha256
    · rw [← here] at opened ⊢
      rw [transfer, of_updateStatus]
      exact .bidCounted opened
    · rw [transfer, of_updateStatus_ne here]
      exact .unchanged
  · exact .unchanged

/-- A closed auction starts the execution; otherwise nothing happens. -/
theorem closeAuction_cases (self : Layer4Instant) (clock : Clock) (id : Hash32) :
    ((∃ e, (self.closeAuction clock id).1 = .error e) ∧ (self.closeAuction clock id).2 = self) ∨
      ∃ executor, (self.closeAuction clock id).1 = .ok () ∧ (self.transfer id).intent.isSome = true ∧
        (∀ other, other ≠ id → (self.closeAuction clock id).2.transfer other = self.transfer other) ∧
        (self.closeAuction clock id).2.transfer id = { self.transfer id with
          status := some (.executionStarted executor (clock 1)), start := some (clock 2) } := by
  unfold closeAuction
  cases found : self.intentPool.intents.lookup id with
  | none => exact .inl ⟨⟨_, rfl⟩, rfl⟩
  | some intent =>
    cases self.auctionEngine.selectWinner id with
    | none => exact .inl ⟨⟨_, rfl⟩, rfl⟩
    | some winner =>
      refine .inr ⟨winner.executorAddress, rfl, ?_, fun other differs => ?_, ?_⟩
      · rw [transfer, of, found]
        rfl
      · simp only [transfer]
        rw [of_updateStatus_ne differs, of_updateStatus_ne differs, of_insert_ne differs]
      · simp only [transfer]
        rw [of_updateStatus, of_updateStatus, of_insert]

/-- A proof is refused, or fails its transfer, or completes it. -/
theorem submitExecutionProof_cases (sha256 : Bytes → Hash32) (self : Layer4Instant) (clock : Clock) (disk : Disk)
    (proof : ExecutionProof) :
    let call : InstantCall := .submitExecutionProof clock disk proof
    (call.completing self = none ∧ call.penalizing self = none ∧ call.apply sha256 self = self) ∨
      (∃ intent, call.completing self = none ∧ call.penalizing self = some proof ∧
        call.apply sha256 self = self.failExecution clock proof intent) ∨
      (∃ intent, call.completing self = some proof ∧ call.penalizing self = none ∧
        ((∃ chain, call.apply sha256 self =
            { self.completeExecution clock proof intent with commitmentChain := chain }) ∨
          ∃ chain, call.apply sha256 self = { self.completeExecution clock proof intent with
            commitmentChain := chain
            intentPool := (self.completeExecution clock proof intent).intentPool.remove proof.intentId
            executionStarts := self.executionStarts.erase proof.intentId })) := by
  simp only [apply, completing, penalizing, submitExecutionProof]
  cases found : self.intentPool.intents.lookup proof.intentId with
  | none =>
    have refused : self.delivered proof = none := by
      rw [delivered, transfer, of, found]
      rfl
    rw [refused]
    exact .inl ⟨rfl, rfl, rfl⟩
  | some intent =>
    by_cases short : proof.destAmountDelivered < intent.minDestAmount
    · have refused : self.delivered proof = none := by
        rw [delivered, transfer, of, found, Option.filter_some,
          decide_eq_false (BitVec.not_le.mpr short)]
        rfl
      simp only [refused, if_pos short]
      exact .inl ⟨rfl, rfl, trivial⟩
    · have given : self.delivered proof = some intent := by
        rw [delivered, transfer, of, found, Option.filter_some, decide_eq_true (BitVec.not_lt.mp short)]
        rfl
      simp only [given, if_neg short]
      cases self.timedOut (clock 0) proof.intentId with
      | true => exact .inr (.inl ⟨intent, rfl, rfl, rfl⟩)
      | false =>
        refine .inr (.inr ⟨intent, rfl, rfl, ?_⟩)
        cases ((self.completeExecution clock proof intent).commitmentChain.submitCommitment disk
          ⟨sha256 (utf8 "L4-EXEC" ++ proof.intentId.toList), .instantTransfer,
            sha256 (proof.intentId.toList ++ utf8 proof.destTxHash), 4, clock 2⟩).1 with
        | error e => exact .inl ⟨_, rfl⟩
        | ok => exact .inr ⟨_, rfl⟩

theorem transfer_completed {clock disk proof}
    (completes : (InstantCall.submitExecutionProof clock disk proof).completing self = some proof) :
    ((InstantCall.submitExecutionProof clock disk proof).apply sha256 self).transfer proof.intentId =
        { self.transfer proof.intentId with
          status := some (.executionCompleted proof.executor proof.destTxHash proof.completedAt) } ∨
      ((InstantCall.submitExecutionProof clock disk proof).apply sha256 self).transfer proof.intentId =
        ⟨none, some (.executionCompleted proof.executor proof.destTxHash proof.completedAt), none⟩ := by
  rcases submitExecutionProof_cases sha256 self clock disk proof with
    ⟨none, -, -⟩ | ⟨_, none, -, -⟩ | ⟨intent, -, -, ⟨chain, after⟩ | ⟨chain, after⟩⟩
  · rw [completes] at none
    cases none
  · rw [completes] at none
    cases none
  · rw [after]
    exact .inl of_updateStatus
  · rw [after]
    simp only [transfer, completeExecution]
    rw [of_remove, of_erase, of_updateStatus]
    exact .inr rfl

theorem transfer_submitExecutionProof_ne {clock disk proof} (differs : id ≠ proof.intentId) :
    ((InstantCall.submitExecutionProof clock disk proof).apply sha256 self).transfer id = self.transfer id := by
  rcases submitExecutionProof_cases sha256 self clock disk proof with
    ⟨-, -, same⟩ | ⟨_, -, -, after⟩ | ⟨intent, -, -, ⟨chain, after⟩ | ⟨chain, after⟩⟩
  · rw [same]
  · rw [after]
    exact of_updateStatus_ne differs
  · rw [after]
    exact of_updateStatus_ne differs
  · rw [after]
    simp only [transfer, completeExecution]
    rw [of_remove_ne differs, of_erase_ne differs, of_updateStatus_ne differs]

theorem submitExecutionProof_effect (clock : Clock) (disk : Disk) (proof : ExecutionProof) (id : Hash32) :
    InstantCall.Effect sha256 self (.submitExecutionProof clock disk proof) id
      ((InstantCall.submitExecutionProof clock disk proof).apply sha256 self |>.transfer id) := by
  by_cases here : id = proof.intentId
  · subst here
    rcases submitExecutionProof_cases sha256 self clock disk proof with
      ⟨-, -, same⟩ | ⟨_, -, -, after⟩ | ⟨intent, completes, -, -⟩
    · rw [same]
      exact .unchanged
    · rw [after, transfer, failExecution, of_updateStatus]
      exact .failed _ _
    · rcases @transfer_completed sha256 self clock disk proof completes with kept | gone
      · rw [kept]
        exact .completed completes rfl
      · rw [gone]
        exact .settled completes rfl
  · rw [transfer_submitExecutionProof_ne here]
    exact .unchanged

theorem transfer_sweepAuction_ne (clocks : Hash32 → Clock) (self : Layer4Instant) (id other : Hash32)
    (differs : other ≠ id) : (self.sweepAuction clocks id).transfer other = self.transfer other := by
  simp only [sweepAuction]
  rcases self.closeAuction_cases (clocks id) id with ⟨⟨e, fails⟩, same⟩ | ⟨executor, ok, -, others, -⟩
  · rw [fails, same]
    exact of_updateStatus_ne differs
  · rw [ok]
    exact others other differs

theorem transfer_sweepTimeout_ne (ts : U64) (self : Layer4Instant) (id other : Hash32) (differs : other ≠ id) :
    (self.sweepTimeout ts id).transfer other = self.transfer other := by
  unfold sweepTimeout
  cases self.intentPool.intents.lookup id with
  | none => rfl
  | some intent =>
    simp only [transfer]
    rw [of_updateStatus_ne differs, of_erase_ne differs]

/-- The auctions that have run out are closed or fail, each on its own. -/
theorem transfer_closed (σ : IterOrder) (ts : U64) (clocks : Hash32 → Clock) (id : Hash32) :
    let closed := (self.intentPool.expiredAuctions σ ts).foldl (fun layer id => layer.sweepAuction clocks id) self
    closed.transfer id = self.transfer id ∨
      (∃ openedAt bidsReceived, (self.transfer id).status = some (.auctionOpen openedAt bidsReceived)) ∧
        ((∃ executor, closed.transfer id = { self.transfer id with
            status := some (.executionStarted executor (clocks id 1)), start := some (clocks id 2) }) ∨
          closed.transfer id = { self.transfer id with
            status := some (.failed (.other "No executors available") (clocks id 3)) }) := by
  intro closed
  have auctions : (self.intentPool.expiredAuctions σ ts).Nodup := (iter_keys_nodup σ 0 self.intentPool.intents).filter _
  rcases Runs.foldl_touch (transfer_sweepAuction_ne clocks) auctions self id with
    ⟨-, same⟩ | ⟨member, layer, before, after⟩
  · exact .inl same
  refine .inr ⟨?_, ?_⟩
  rotate_left
  · rw [after, ← before]
    simp only [sweepAuction]
    rcases layer.closeAuction_cases (clocks id) id with ⟨⟨e, fails⟩, same⟩ | ⟨executor, ok, -, -, here⟩
    · rw [fails, same]
      exact .inr of_updateStatus
    · rw [ok]
      exact .inl ⟨executor, here⟩
  have expired := (List.mem_filter.mp member).2
  unfold auctionExpired at expired
  split at expired
  · rename_i openedAt bidsReceived opened
    exact ⟨openedAt, bidsReceived, opened⟩
  · cases expired

theorem sweep_effect (σ : IterOrder) (clock : Clock) (clocks : Hash32 → Clock) (id : Hash32) :
    Effect sha256 self (.sweep σ clock clocks) id ((self.sweep σ clock clocks).transfer id) := by
  have first := @transfer_closed self σ (clock 0) clocks id
  simp only [sweep]
  generalize (self.intentPool.expiredAuctions σ (clock 0)).foldl (fun layer id => layer.sweepAuction clocks id) self =
    closed at first ⊢
  have effect : Effect sha256 self (.sweep σ clock clocks) id (closed.transfer id) := by
    rcases first with same | ⟨opened, ⟨executor, started⟩ | failed⟩
    · rw [same]
      exact .unchanged
    · rw [started]
      exact .started executor _ _ opened
    · rw [failed]
      exact .failed _ _
  have kept : (closed.transfer id).intent = (self.transfer id).intent := by
    rcases first with same | ⟨-, ⟨executor, started⟩ | failed⟩
    · rw [same]
    · rw [started]
    · rw [failed]
  have starts : (closed.timedOutStarts σ (clock 1)).Nodup :=
    (iter_keys_nodup σ 1 closed.executionStarts).sublist (List.filter_sublist.map _)
  rcases Runs.foldl_touch (transfer_sweepTimeout_ne (clock 1)) starts closed id with
    ⟨-, same⟩ | ⟨-, layer, before, after⟩
  · rw [same]
    exact effect
  · rw [after, sweepTimeout]
    cases layer.intentPool.intents.lookup id with
    | none =>
      rw [before]
      exact effect
    | some intent =>
      simp only [transfer] at before kept ⊢
      rw [of_updateStatus, of_erase, before]
      simp only [kept]
      exact .swept _

end Layer4Instant

/-- Every call has one of the effects on every transfer. -/
theorem InstantCall.effect (sha256 : Bytes → Hash32) (self : Layer4Instant) (call : InstantCall) (id : Hash32) :
    call.Effect sha256 self id ((call.apply sha256 self).transfer id) := by
  cases call with
  | registerExecutor profile => exact .unchanged
  | submitIntent clock moment disk intent => exact submitIntent_effect clock moment disk intent id
  | placeBid bid => exact placeBid_effect bid id
  | closeAuction clock intentId =>
    rw [apply]
    rcases self.closeAuction_cases clock intentId with ⟨-, same⟩ | ⟨executor, ok, -, others, here⟩
    · rw [same]
      exact .unchanged
    by_cases is : id = intentId
    · subst is
      rw [here]
      exact .started executor _ _ ⟨rfl, ok⟩
    · rw [others id is]
      exact .unchanged
  | submitExecutionProof clock disk proof => exact submitExecutionProof_effect clock disk proof id
  | sweep σ clock clocks => exact sweep_effect σ clock clocks id

end Bleep.Connect
