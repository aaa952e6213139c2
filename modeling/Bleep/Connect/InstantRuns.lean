import Bleep.Connect.InstantEffects

namespace Bleep.Connect

open HashTable Results ExecutorRegistry Option

variable {call : InstantCall}

namespace Layer4Instant

variable {sha256 : Bytes → Hash32} {self : Layer4Instant} {id : Hash32}

def failures (self : Layer4Instant) (name : String) : Option U64 :=
  (self.executorRegistry.profiles.lookup name).map ExecutorProfile.failedExecutions

theorem profiles_releaseBond (registry : ExecutorRegistry) (executor : String) (amount : U128) :
    (registry.releaseBond executor amount).profiles = registry.profiles := by
  unfold releaseBond
  cases registry.bonds.lookup executor with
  | none => rfl
  | some bond => rfl

theorem lookup_modifyProfile_ne (registry : ExecutorRegistry) {address name}
    (change : ExecutorProfile → ExecutorProfile) (differs : name ≠ address.display) :
    (registry.modifyProfile address change).profiles.lookup name = registry.profiles.lookup name := by
  unfold modifyProfile
  cases registry.profiles.lookup address.display with
  | none => rfl
  | some profile => exact AList.lookup_insert_ne differs

theorem profiles_closeAuction (self : Layer4Instant) (clock : Clock) (id : Hash32) :
    (self.closeAuction clock id).2.executorRegistry.profiles = self.executorRegistry.profiles := by
  unfold closeAuction
  cases self.intentPool.intents.lookup id with
  | none => rfl
  | some intent =>
    cases self.auctionEngine.selectWinner id with
    | none => rfl
    | some winner => rfl

theorem profiles_sweepAuction (clocks : Hash32 → Clock) (self : Layer4Instant) (id : Hash32) :
    (self.sweepAuction clocks id).executorRegistry.profiles = self.executorRegistry.profiles := by
  simp only [sweepAuction]
  have same := self.profiles_closeAuction (clocks id) id
  cases (self.closeAuction (clocks id) id).1 with
  | error e => exact same
  | ok => exact same

theorem profiles_sweep (self : Layer4Instant) (σ : IterOrder) (clock : Clock) (clocks : Hash32 → Clock) :
    (self.sweep σ clock clocks).executorRegistry.profiles = self.executorRegistry.profiles := by
  have timeout (layer : Layer4Instant) (id : Hash32) :
      (layer.sweepTimeout (clock 1) id).executorRegistry.profiles = layer.executorRegistry.profiles := by
    unfold sweepTimeout
    cases layer.intentPool.intents.lookup id <;> rfl
  refine List.foldlRecOn _ _ ?_ fun layer same id _ => (timeout layer id).trans same
  refine List.foldlRecOn _ _ ?_ fun layer same id _ => (profiles_sweepAuction _ layer id).trans same
  rfl

theorem profiles_placeBid (self : Layer4Instant) (bid : ExecutorBid) :
    (self.placeBid sha256 bid).2.executorRegistry.profiles = self.executorRegistry.profiles := by
  unfold placeBid
  split
  · rfl
  split
  · rfl
  split
  · rfl
  unfold countBid
  split
  · rfl
  · rfl

theorem profiles_submitIntent (self : Layer4Instant) (clock : Clock) (moment : Nat) (disk : Disk)
    (intent : InstantIntent) :
    (self.submitIntent sha256 clock moment disk intent).2.executorRegistry.profiles = self.executorRegistry.profiles := by
  simp only [submitIntent]
  cases self.checkEscrow moment (withExpiry (clock 0) intent) >>= fun _ =>
      self.intentPool.add sha256 (clock 1) (withExpiry (clock 0) intent) with
  | error e => rfl
  | ok added => rfl

theorem failures_completeExecution (self : Layer4Instant) (clock : Clock) (proof : ExecutionProof)
    (intent : InstantIntent) (name : String) :
    (self.completeExecution clock proof intent).failures name = self.failures name := by
  simp only [failures, completeExecution, recordSuccess, modifyProfile]
  rw [profiles_releaseBond]
  cases found : self.executorRegistry.profiles.lookup proof.executor.display with
  | none =>
    rw [profiles_releaseBond]
  | some profile =>
    exact lookup_insert_congr (Option.map ExecutorProfile.failedExecutions) (by rw [found]; rfl) name

/-- Only a late proof adds a failure, and only to the executor it names. -/
theorem penalizing_of_failures {name} (old : ∀ profile, call ≠ .registerExecutor profile)
    (changed : (call.apply sha256 self).failures name ≠ self.failures name) :
    ∃ proof, call.penalizing self = some proof ∧ proof.executor.display = name := by
  have same_profiles (same : (call.apply sha256 self).executorRegistry.profiles = self.executorRegistry.profiles) :
      (call.apply sha256 self).failures name = self.failures name := by
    rw [failures, same, failures]
  cases call with
  | registerExecutor profile => exact absurd rfl (old profile)
  | submitIntent clock moment disk intent =>
    exact absurd (same_profiles (self.profiles_submitIntent clock moment disk intent)) changed
  | placeBid bid => exact absurd (same_profiles (self.profiles_placeBid bid)) changed
  | closeAuction clock intentId => exact absurd (same_profiles (self.profiles_closeAuction clock intentId)) changed
  | sweep σ clock clocks => exact absurd (same_profiles (self.profiles_sweep σ clock clocks)) changed
  | submitExecutionProof clock disk proof =>
    rcases submitExecutionProof_cases sha256 self clock disk proof with
      ⟨-, -, same⟩ | ⟨intent, -, penalizes, after⟩ | ⟨intent, -, -, ⟨chain, after⟩ | ⟨chain, after⟩⟩
    · exact absurd (by rw [same]) changed
    · refine ⟨proof, penalizes, ?_⟩
      by_contra other
      refine changed ?_
      rw [after, failures, failExecution]
      simp only [recordFailure]
      rw [lookup_modifyProfile_ne _ _ fun same => other same.symm, slashBond, profiles_releaseBond]
      rfl
    · refine absurd ?_ changed
      rw [after]
      exact failures_completeExecution self clock proof intent name
    · refine absurd ?_ changed
      rw [after]
      exact failures_completeExecution self clock proof intent name

/-- Every execution that has started has its start on record. -/
def Recorded (self : Layer4Instant) : Prop :=
  ∀ id executor startedAt, (self.transfer id).status = some (.executionStarted executor startedAt) →
    (self.transfer id).start.isSome = true

theorem Recorded.apply (recorded : self.Recorded) (call : InstantCall) : (call.apply sha256 self).Recorded := by
  intro id executor startedAt started
  have effect := call.effect sha256 self id
  generalize (call.apply sha256 self).transfer id = after at effect started ⊢
  cases effect with
  | unchanged => exact recorded id executor startedAt started
  | submitted openedAt accepted is => cases started
  | bidCounted opened => cases started
  | started executor startedAt start closed => rfl
  | failed reason failedAt => cases started
  | swept failedAt => cases started
  | completed completes is => cases started
  | settled completes is => cases started

def Ended (status : Option TransferStatus) : Prop :=
  (∃ executor destTx completedAt, status = some (.executionCompleted executor destTx completedAt)) ∨
    ∃ reason failedAt, status = some (.failed reason failedAt)

/-- What has ended stays so, unless it is submitted again or its auction is
closed again. -/
theorem Ended.apply (ended : Ended (self.transfer id).status)
    (notSubmitted : ∀ intent, call.accepts self = some intent → intent.calculateId sha256 ≠ id)
    (notClosed : ∀ clock, call = .closeAuction clock id → ∃ e, (self.closeAuction clock id).1 = .error e) :
    Ended ((call.apply sha256 self).transfer id).status := by
  have notOpen {openedAt : U64} {bidsReceived : U32} :
      (self.transfer id).status ≠ some (.auctionOpen openedAt bidsReceived) := by
    intro opened
    rw [opened] at ended
    rcases ended with ⟨_, _, _, same⟩ | ⟨_, _, same⟩
    · cases same
    · cases same
  have effect := call.effect sha256 self id
  generalize (call.apply sha256 self).transfer id = after at effect ⊢
  cases effect with
  | unchanged => exact ended
  | submitted openedAt accepted is => exact absurd is (notSubmitted _ accepted)
  | bidCounted opened => exact absurd opened notOpen
  | started executor startedAt start closed =>
    cases call with
    | closeAuction clock intentId =>
      obtain ⟨is, ok⟩ := closed
      subst is
      obtain ⟨e, fails⟩ := notClosed clock rfl
      rw [ok] at fails
      cases fails
    | sweep σ clock clocks =>
      obtain ⟨openedAt, bidsReceived, opened⟩ := closed
      exact absurd opened notOpen
    | registerExecutor profile => cases closed
    | submitIntent clock moment disk intent => cases closed
    | placeBid bid => cases closed
    | submitExecutionProof clock disk proof => cases closed
  | failed reason failedAt => exact .inr ⟨reason, failedAt, rfl⟩
  | swept failedAt => exact .inr ⟨.executorTimeout, failedAt, rfl⟩
  | completed completes is => exact .inl ⟨_, _, _, rfl⟩
  | settled completes is => exact .inl ⟨_, _, _, rfl⟩

end Layer4Instant

open Layer4Instant

namespace InstantCall

variable {self : Layer4Instant} {call : InstantCall} {proof : ExecutionProof}

theorem of_completing (completes : call.completing self = some proof) :
    ∃ clock disk, call = .submitExecutionProof clock disk proof ∧ self.timedOut (clock 0) proof.intentId = false ∧
      (self.delivered proof).isSome = true := by
  cases call with
  | submitExecutionProof clock disk given =>
    simp only [completing, ite_none_right_eq_some, Bool.and_eq_true, Bool.not_eq_true', some.injEq] at completes
    obtain ⟨⟨delivered, inTime⟩, rfl⟩ := completes
    exact ⟨clock, disk, rfl, inTime, delivered⟩
  | registerExecutor profile => cases completes
  | submitIntent clock moment disk intent => cases completes
  | placeBid bid => cases completes
  | closeAuction clock intentId => cases completes
  | sweep σ clock clocks => cases completes

end InstantCall

section Runs

variable (hashes : Hashes) (sphincs : Sphincs) (chain : CommitmentChain) (verifier : Option EscrowVerifier)
  (calls : List InstantCall)

variable (n : Nat)

def layerAt : Layer4Instant :=
  (calls.take n).foldl (InstantCall.apply hashes.sha256) (.newWithEscrowVerifier chain verifier)

/-- The status of a transfer after `n` calls. -/
def statusAt (id : Hash32) : Option TransferStatus := ((layerAt hashes chain verifier calls n).transfer id).status

/-- The next call completes a transfer by the proof. -/
def CompletesAt (proof : ExecutionProof) : Prop :=
  ∃ call, calls[n]? = some call ∧ call.completing (layerAt hashes chain verifier calls n) = some proof

/-- The next call slashes the executor of the proof and records a failure. -/
def PenalizesAt (proof : ExecutionProof) : Prop :=
  ∃ call, calls[n]? = some call ∧ call.penalizing (layerAt hashes chain verifier calls n) = some proof

/-- The next call puts the intent into the pool. -/
def AcceptsAt (intent : InstantIntent) : Prop :=
  ∃ call, calls[n]? = some call ∧ call.accepts (layerAt hashes chain verifier calls n) = some intent

/-- The executor has accepted the intent, and its execution runs. -/
def StartedAt (id : Hash32) (executor : UniversalAddress) : Prop :=
  ∃ startedAt, statusAt hashes chain verifier calls n id = some (.executionStarted executor startedAt)

/-- No intent is submitted again, or its auction closed again, once it has been
completed. -/
def NotReopened : Prop :=
  ∀ m n proof, m < n → CompletesAt hashes chain verifier calls m proof →
    (∀ intent, AcceptsAt hashes chain verifier calls n intent → intent.calculateId hashes.sha256 ≠ proof.intentId) ∧
    ∀ clock, calls[n]? = some (.closeAuction clock proof.intentId) →
      ∃ e, ((layerAt hashes chain verifier calls n).closeAuction clock proof.intentId).1 = .error e

variable (key : UniversalAddress → Bytes)

/-- Transfers are completed by their winners only, in time and once, and only
executors that accepted an intent are penalized for it. -/
structure CompletedByWinner : Prop where
  winner : ∀ n proof, CompletesAt hashes chain verifier calls n proof →
    StartedAt hashes chain verifier calls n proof.intentId proof.executor ∧
      proof.verifySignature hashes sphincs (key proof.executor) = true ∧
      ∃ clock disk start, calls[n]? = some (.submitExecutionProof clock disk proof) ∧
        ((layerAt hashes chain verifier calls n).transfer proof.intentId).start = some start ∧
        clock 0 ≤ start + executionTimeout
  once : ∀ m n proof proof', m < n → CompletesAt hashes chain verifier calls m proof →
    CompletesAt hashes chain verifier calls n proof' → proof'.intentId ≠ proof.intentId
  penalty : ∀ n proof, PenalizesAt hashes chain verifier calls n proof →
    ∃ m ≤ n, StartedAt hashes chain verifier calls m proof.intentId proof.executor

/-- What the layer does not check of the proofs it is given. -/
structure ProofsByWinner : Prop where
  completing : ∀ n proof, CompletesAt hashes chain verifier calls n proof →
    StartedAt hashes chain verifier calls n proof.intentId proof.executor ∧
      proof.verifySignature hashes sphincs (key proof.executor) = true
  penalizing : ∀ n proof, PenalizesAt hashes chain verifier calls n proof →
    ∃ m ≤ n, StartedAt hashes chain verifier calls m proof.intentId proof.executor

end Runs

section

variable {hashes : Hashes} {sphincs : Sphincs} {chain : CommitmentChain} {verifier : Option EscrowVerifier}
  {calls : List InstantCall} {n : Nat}

theorem layerAt_succ (here : calls[n]? = some call) :
    layerAt hashes chain verifier calls (n + 1) = call.apply hashes.sha256 (layerAt hashes chain verifier calls n) :=
  Runs.foldl_take_succ here

theorem recorded_layerAt (n : Nat) : (layerAt hashes chain verifier calls n).Recorded := by
  refine Runs.foldl_take_mono (fun _ call recorded => recorded.apply call) (Nat.zero_le n) ?_
  intro id executor startedAt started
  cases started

theorem ended_of_completesAt {m proof}
    (notReopened : NotReopened hashes chain verifier calls) (completes : CompletesAt hashes chain verifier calls m proof)
    (later : m < n) : Ended (statusAt hashes chain verifier calls n proof.intentId) := by
  refine @Runs.foldl_take_keeps _ _ _ _ _ (fun layer : Layer4Instant => Ended (layer.transfer proof.intentId).status)
    (m + 1) n later ?_ fun k call lower _ here ended => ?_
  · obtain ⟨call, here, completes⟩ := completes
    obtain ⟨clock, disk, rfl, -⟩ := InstantCall.of_completing completes
    rw [← layerAt, layerAt_succ here]
    rcases @transfer_completed hashes.sha256 _ clock disk proof completes with kept | gone
    · rw [kept]
      exact .inl ⟨_, _, _, rfl⟩
    · rw [gone]
      exact .inl ⟨_, _, _, rfl⟩
  · obtain ⟨notSubmitted, notClosed⟩ := notReopened m k proof lower completes
    refine ended.apply (fun intent accepted => notSubmitted intent ⟨call, here, accepted⟩) fun clock is => ?_
    subst is
    exact notClosed clock here

theorem completedByWinner_iff {key} (notReopened : NotReopened hashes chain verifier calls) :
    CompletedByWinner hashes sphincs chain verifier calls key ↔ ProofsByWinner hashes sphincs chain verifier calls key := by
  constructor
  · intro safe
    exact ⟨fun n proof completes => ⟨(safe.winner n proof completes).1, (safe.winner n proof completes).2.1⟩, safe.penalty⟩
  · intro gated
    refine ⟨fun n proof completes => ?_, fun m n proof proof' later completes completes' same => ?_, gated.penalizing⟩
    · obtain ⟨started, signed⟩ := gated.completing n proof completes
      refine ⟨started, signed, ?_⟩
      -- the start is on record, so that the time limit was checked against it
      obtain ⟨call, here, completes⟩ := completes
      obtain ⟨clock, disk, rfl, inTime, -⟩ := InstantCall.of_completing completes
      obtain ⟨startedAt, status⟩ := started
      obtain ⟨start, recorded⟩ := isSome_iff_exists.mp (recorded_layerAt n proof.intentId _ _ status)
      refine ⟨clock, disk, start, here, recorded, ?_⟩
      have start' : (layerAt hashes chain verifier calls n).executionStarts.lookup proof.intentId = some start := recorded
      rw [timedOut, start', getD_some, decide_eq_false_iff_not, BitVec.not_lt] at inTime
      exact inTime
    · have ended := ended_of_completesAt notReopened completes later
      obtain ⟨⟨startedAt, started⟩, -⟩ := gated.completing n proof' completes'
      rw [← same, started] at ended
      rcases ended with ⟨_, _, _, same⟩ | ⟨_, _, same⟩
      · cases same
      · cases same

end

/-- Statuses become completed through proofs and failures are recorded through
late proofs only. When completed intents are not opened again, the transfers are
completed by their winners exactly when the proofs that the layer lets through
are the winners' own. -/
theorem instant_completion (hashes : Hashes) (sphincs : Sphincs) (chain : CommitmentChain)
    (verifier : Option EscrowVerifier) (calls : List InstantCall) (key : UniversalAddress → Bytes) :
    (∀ n id executor destTx completedAt,
      statusAt hashes chain verifier calls (n + 1) id = some (.executionCompleted executor destTx completedAt) →
      statusAt hashes chain verifier calls n id ≠ statusAt hashes chain verifier calls (n + 1) id →
      ∃ proof, CompletesAt hashes chain verifier calls n proof ∧ proof.intentId = id ∧ proof.executor = executor) ∧
    (∀ n call name, calls[n]? = some call → (∀ profile, call ≠ .registerExecutor profile) →
      (layerAt hashes chain verifier calls (n + 1)).failures name ≠ (layerAt hashes chain verifier calls n).failures name →
      ∃ proof, PenalizesAt hashes chain verifier calls n proof ∧ proof.executor.display = name) ∧
    (NotReopened hashes chain verifier calls →
      (CompletedByWinner hashes sphincs chain verifier calls key ↔
        ProofsByWinner hashes sphincs chain verifier calls key)) := by
  refine ⟨?_, ?_, completedByWinner_iff⟩
  · intro n id executor destTx completedAt after changed
    cases here : calls[n]? with
    | none =>
      refine absurd ?_ changed
      rw [statusAt, statusAt, layerAt, layerAt, Runs.foldl_take_stop here]
    | some call =>
      unfold statusAt at after changed
      rw [layerAt_succ here] at after changed
      have effect := call.effect hashes.sha256 (layerAt hashes chain verifier calls n) id
      generalize (call.apply hashes.sha256 (layerAt hashes chain verifier calls n)).transfer id = next
        at effect after changed
      cases effect with
      | unchanged => exact absurd rfl changed
      | submitted openedAt accepted is => cases after
      | bidCounted opened => cases after
      | started executor startedAt start closed => cases after
      | failed reason failedAt => cases after
      | swept failedAt => cases after
      | completed completes is =>
        cases after
        exact ⟨_, ⟨call, here, completes⟩, is, rfl⟩
      | settled completes is =>
        cases after
        exact ⟨_, ⟨call, here, completes⟩, is, rfl⟩
  · intro n call name here old changed
    rw [layerAt_succ here] at changed
    obtain ⟨proof, penalizes, is⟩ := penalizing_of_failures old changed
    exact ⟨proof, ⟨call, here, penalizes⟩, is⟩

section Demo

def demoIntent : InstantIntent where
  intentId := Vector.replicate 32 0
  createdAt := 1000
  expiresAt := 5000
  sourceChain := .ethereum
  destChain := .solana
  sourceAsset := .native .ethereum
  destAsset := .native .solana
  sourceAmount := 1000
  minDestAmount := 900
  sender := ⟨.ethereum, "alice"⟩
  recipient := ⟨.solana, "bob"⟩
  maxSolverRewardBps := 100
  slippageToleranceBps := 0
  nonce := 1
  signature := []
  escrowTxHash := "0xe"
  escrowProof := [1]

/-- A verifier that knows of one escrow and accepts it for one intent only. -/
def demoVerifier : EscrowVerifier := fun _ intent =>
  if intent = demoIntent then .ok ⟨1000, "bob"⟩ else .error "no such escrow"

def demoChain : CommitmentChain := .new [] [] []

def demoId : Hash32 := demoIntent.calculateId lastBytes

def carol : UniversalAddress := ⟨.solana, "carol"⟩
def mallory : UniversalAddress := ⟨.solana, "mallory"⟩

/-- The key of an executor, for evaluation only. -/
def demoKey (executor : UniversalAddress) : Bytes := utf8 executor.address

def demoProfile (address : UniversalAddress) : ExecutorProfile := ⟨address, .standard, 1, 1, 0, 0, 0, 1000000, 0⟩

def demoBid : ExecutorBid := ⟨demoId, carol, .standard, 50, 10⟩

def demoProof (executor : UniversalAddress) (signature : Bytes) : ExecutionProof :=
  ⟨demoId, executor, "0xf", 950, 1100, 10, signature⟩

def atTime (now : U64) : Clock := fun _ => now

/-- A transfer up to the start of its execution by the winner. -/
def demoStart : List InstantCall :=
  [.registerExecutor (demoProfile carol), .registerExecutor (demoProfile mallory),
    .submitIntent (atTime 1010) 0 (fun _ => none) demoIntent, .placeBid demoBid, .closeAuction (atTime 1030) demoId]

/-- A proof without a signature completes a transfer for an executor that never
took part; a proof before the auction has an executor that never took part
slashed; and an intent that is submitted again is completed again. -/
theorem demoStart_stolen :
    let stolen := demoStart ++ [.submitExecutionProof (atTime 1040) (fun _ => none) (demoProof mallory [])]
    let blamed := demoStart.take 3 ++ [.submitExecutionProof (atTime 1020) (fun _ => none) (demoProof mallory [])]
    let rerun := demoStart ++ .submitExecutionProof (atTime 1040) (fun _ => none) (demoProof carol (demoKey carol)) ::
      demoStart.drop 2 ++ [.submitExecutionProof (atTime 1040) (fun _ => none) (demoProof carol (demoKey carol))]
    (statusAt lastHashes demoChain (some demoVerifier) stolen 5 demoId = some (.executionStarted carol 1030) ∧
      statusAt lastHashes demoChain (some demoVerifier) stolen 6 demoId =
        some (.executionCompleted mallory "0xf" 1100) ∧
      (demoProof mallory []).verifySignature lastHashes keySphincs (demoKey mallory) = false) ∧
    (statusAt lastHashes demoChain (some demoVerifier) blamed 3 demoId = some (.auctionOpen 1010 0) ∧
      (layerAt lastHashes demoChain (some demoVerifier) blamed 3).failures mallory.display = some 0 ∧
      (layerAt lastHashes demoChain (some demoVerifier) blamed 4).failures mallory.display = some 1) ∧
    CompletesAt lastHashes demoChain (some demoVerifier) rerun 5 (demoProof carol (demoKey carol)) ∧
      CompletesAt lastHashes demoChain (some demoVerifier) rerun 9 (demoProof carol (demoKey carol)) := by
  refine ⟨?_, ?_, ⟨_, rfl, ?_⟩, ⟨_, rfl, ?_⟩⟩
  · decide +kernel
  · decide +kernel
  · decide +kernel
  · decide +kernel

end Demo

end Bleep.Connect
