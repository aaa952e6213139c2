import Bleep.Connect.InstantRuns

namespace Bleep.Connect

open HashTable Results UniversalAddress

/-- A custom chain that does not carry the number of a named one. -/
def ChainId.Plain (self : ChainId) : Prop :=
  ∀ id, self = custom id → (id = 0 ∨ 18 < id) ∧ id ≠ 999

theorem ChainId.toU32_inj {first second : ChainId} (plain : first.Plain) (plain' : second.Plain)
    (same : first.toU32 = second.toU32) : first = second := by
  cases first with
  | custom id =>
    have free := plain id rfl
    cases second with
    | custom id' => exact congrArg custom same
    | _ =>
      subst same
      revert free
      decide
  | _ =>
    cases second with
    | custom id' =>
      have free := plain' id' rfl
      subst same
      revert free
      decide
    | _ => first | rfl | (revert same; decide)

theorem UniversalAddress.toBytes_inj {first second : UniversalAddress} (plain : first.chain.Plain)
    (plain' : second.chain.Plain) (same : first.toBytes = second.toBytes) : first = second := by
  obtain ⟨chain, address⟩ := be32_delimited trivial trivial same
  cases first with
  | mk chain₁ address₁ =>
    cases second with
    | mk chain₂ address₂ =>
      have chains : chain₁ = chain₂ := ChainId.toU32_inj plain plain' chain
      have addresses : address₁ = address₂ := utf8_injective address
      rw [chains, addresses]

namespace InstantIntent

variable {first second : InstantIntent}

/-- What two intents with one id should have in common. -/
structure Agree (first second : InstantIntent) : Prop where
  sourceChain : first.sourceChain = second.sourceChain
  destChain : first.destChain = second.destChain
  sourceAsset : first.sourceAsset = second.sourceAsset
  destAsset : first.destAsset = second.destAsset
  sourceAmount : first.sourceAmount = second.sourceAmount
  minDestAmount : first.minDestAmount = second.minDestAmount
  sender : first.sender = second.sender
  recipient : first.recipient = second.recipient
  expiresAt : first.expiresAt = second.expiresAt

/-- No custom chain of the intent carries the number of a named one. -/
structure Plain (intent : InstantIntent) : Prop where
  sourceChain : intent.sourceChain.Plain
  destChain : intent.destChain.Plain
  sender : intent.sender.chain.Plain
  recipient : intent.recipient.chain.Plain

/-- Intents with one id agree in what the id is made of, if the senders'
addresses are equally long and chains have their own numbers. -/
theorem agree_iff {sha256} (injective : Function.Injective sha256)
    (same : first.calculateId sha256 = second.calculateId sha256) (plain : first.Plain) (plain' : second.Plain)
    (long : (utf8 first.sender.address).length = (utf8 second.sender.address).length) :
    first.Agree second ↔ first.sourceAsset = second.sourceAsset ∧ first.destAsset = second.destAsset ∧
      first.minDestAmount = second.minDestAmount ∧ first.expiresAt = second.expiresAt := by
  obtain ⟨source, dest, amount, parties, -, -⟩ := idPreimage_eq_iff.mp (injective same)
  constructor
  · intro agree
    exact ⟨agree.sourceAsset, agree.destAsset, agree.minDestAmount, agree.expiresAt⟩
  · rintro ⟨sourceAsset, destAsset, minimum, expires⟩
    have lengths : first.sender.toBytes.length = second.sender.toBytes.length := by
      simp [toBytes, be32, long]
    obtain ⟨sender, recipient⟩ := List.append_inj parties lengths
    exact ⟨ChainId.toU32_inj plain.sourceChain plain'.sourceChain source,
      ChainId.toU32_inj plain.destChain plain'.destChain dest, sourceAsset, destAsset, amount, minimum,
      toBytes_inj plain.sender plain'.sender sender,
      toBytes_inj plain.recipient plain'.recipient recipient, expires⟩

end InstantIntent

/-- The transfer has started, completed or failed. -/
def Begun (status : Option TransferStatus) : Prop :=
  (∃ executor startedAt, status = some (.executionStarted executor startedAt)) ∨ Layer4Instant.Ended status

theorem not_begun_opened (openedAt : U64) (bidsReceived : U32) : ¬Begun (some (.auctionOpen openedAt bidsReceived)) := by
  rintro (⟨_, _, same⟩ | ⟨_, _, _, same⟩ | ⟨_, _, same⟩)
  · cases same
  · cases same
  · cases same

section Runs

variable (hashes : Hashes) (chain : CommitmentChain) (verifier : Option EscrowVerifier) (calls : List InstantCall)

/-- No two accepted submissions name one escrow. -/
def NewEscrows : Prop :=
  ∀ i j intent intent', i ≠ j → AcceptsAt hashes chain verifier calls i intent →
    AcceptsAt hashes chain verifier calls j intent' → intent.escrowTxHash ≠ intent'.escrowTxHash

variable {hashes chain verifier calls} {n : Nat}

/-- Every intent in the pool was accepted under its id. -/
theorem accepted_of_pooled {id intent}
    (pooled : ((layerAt hashes chain verifier calls n).transfer id).intent = some intent) :
    ∃ m < n, AcceptsAt hashes chain verifier calls m intent ∧ intent.calculateId hashes.sha256 = id := by
  obtain ⟨m, -, less, call, here, fresh, pooled⟩ := @Runs.exists_turn _ _ _ _ _
    (fun layer : Layer4Instant => (layer.transfer id).intent = some intent) 0 n (Nat.zero_le n) (by rintro ⟨⟩) pooled
  have effect := call.effect hashes.sha256 (layerAt hashes chain verifier calls m) id
  rw [← layerAt] at pooled
  generalize (call.apply hashes.sha256 (layerAt hashes chain verifier calls m)).transfer id = next at effect pooled
  cases effect with
  | submitted openedAt accepted is =>
    cases pooled
    exact ⟨m, less, ⟨call, here, accepted⟩, is⟩
  | settled completes is => cases pooled
  | _ => exact absurd pooled fresh

/-- Only an accepted submission changes the status of a transfer, and it opens
the auction. -/
theorem status_submitIntent {clock moment disk intent}
    (here : calls[n]? = some (.submitIntent clock moment disk intent)) :
    (∀ stored, ¬AcceptsAt hashes chain verifier calls n stored) ∧
        (∀ id, statusAt hashes chain verifier calls (n + 1) id = statusAt hashes chain verifier calls n id) ∨
      ∃ stored, (∀ other, AcceptsAt hashes chain verifier calls n other ↔ other = stored) ∧
        (∀ id, id ≠ stored.calculateId hashes.sha256 →
          statusAt hashes chain verifier calls (n + 1) id = statusAt hashes chain verifier calls n id) ∧
        statusAt hashes chain verifier calls (n + 1) (stored.calculateId hashes.sha256) =
          some (.auctionOpen (clock 3) 0) := by
  have only (other : InstantIntent) : AcceptsAt hashes chain verifier calls n other ↔
      (InstantCall.submitIntent clock moment disk intent).accepts (layerAt hashes chain verifier calls n) = some other := by
    constructor
    · rintro ⟨call, there, accepted⟩
      cases here.symm.trans there
      exact accepted
    · intro accepted
      exact ⟨_, here, accepted⟩
  simp only [statusAt, layerAt_succ here, only]
  rcases Layer4Instant.submitIntent_cases hashes.sha256 (layerAt hashes chain verifier calls n) clock moment disk intent with
    ⟨refused, same⟩ | ⟨stored, accepted, others, opened⟩
  · refine .inl ⟨fun stored accepted => ?_, fun id => by rw [same]⟩
    rw [refused] at accepted
    cases accepted
  · refine .inr ⟨stored, fun other => ?_, fun id differs => by rw [others id differs], by rw [opened]⟩
    rw [accepted, Option.some.injEq, eq_comm]

end Runs

end Bleep.Connect
