import Bleep.Crypto
import Bleep.Library.Runs
import Mathlib.Data.Finset.Insert

namespace Bleep.Governance

inductive ZKVotingError
  | invalidBallotProof
  | commitmentVerificationFailed
  | votingWindowClosed
  | doubleVoteDetected
  | voteReplayDetected
deriving DecidableEq, Repr

structure VoteCommitment where
  commitment : Bytes
  commitmentHash : Bytes
  proposalId : String
  voterCommitment : Bytes
  epoch : U64
  nonce : U64

structure EncryptedBallot where
  encryptedVote : Bytes
  ballotHash : Bytes
  voteCommitment : VoteCommitment

structure VotingBallot where
  proposalId : String
  encryptedBallot : EncryptedBallot
  epoch : U64

/-- An entry that the maps of the source lack is an empty one here. -/
structure ZKVotingEngine where
  proposalVoters : String → Finset Bytes
  proposalBallots : String → List VotingBallot
  usedNonces : Finset U64
  currentEpoch : U64

variable (sha256 : Bytes → Hash32)

/-- The two parts are hashed one after the other, without their lengths. -/
def VoteCommitment.verifyHash (self : VoteCommitment) : Bool :=
  (sha256 (self.commitment ++ self.voterCommitment)).toList == self.commitmentHash

def EncryptedBallot.verifyHash (self : EncryptedBallot) : Bool :=
  (sha256 (self.encryptedVote ++ self.voteCommitment.commitmentHash)).toList == self.ballotHash

abbrev VotingBallot.voteCommitment (self : VotingBallot) : VoteCommitment := self.encryptedBallot.voteCommitment
abbrev VotingBallot.voter (self : VotingBallot) : Bytes := self.voteCommitment.voterCommitment
abbrev VotingBallot.hash (self : VotingBallot) : Bytes := self.voteCommitment.commitmentHash
abbrev VotingBallot.nonce (self : VotingBallot) : U64 := self.voteCommitment.nonce

namespace ZKVotingEngine

def new (currentEpoch : U64) : ZKVotingEngine := ⟨fun _ => ∅, fun _ => [], ∅, currentEpoch⟩

section Calls
variable (self : ZKVotingEngine) (ballot : VotingBallot)

/-- The end of `castVote`, behind its checks. -/
def record : ZKVotingEngine := { self with
  proposalVoters := Function.update self.proposalVoters ballot.proposalId
    (insert ballot.hash (self.proposalVoters ballot.proposalId))
  usedNonces := insert ballot.nonce self.usedNonces
  proposalBallots := Function.update self.proposalBallots ballot.proposalId
    (self.proposalBallots ballot.proposalId ++ [ballot]) }

def castVote : Except ZKVotingError Unit × ZKVotingEngine :=
  if !ballot.encryptedBallot.verifyHash sha256 then (.error .invalidBallotProof, self)
  else if !ballot.voteCommitment.verifyHash sha256 then (.error .commitmentVerificationFailed, self)
  else if ballot.epoch ≠ self.currentEpoch then (.error .votingWindowClosed, self)
  else if ballot.hash ∈ self.proposalVoters ballot.proposalId then (.error .doubleVoteDetected, self)
  else if ballot.nonce ∈ self.usedNonces then (.error .voteReplayDetected, self)
  else (.ok (), self.record ballot)

/-- The engine after the first `n` of the ballots. -/
def after (epoch : U64) (ballots : List VotingBallot) (n : Nat) : ZKVotingEngine :=
  (ballots.take n).foldl (fun engine ballot => (engine.castVote sha256 ballot).2) (new epoch)

/-- A field of the ballots recorded for a proposal. -/
def recorded {α : Type} (field : VotingBallot → α) (proposal : String) : List α :=
  (self.proposalBallots proposal).map field

/-- The commitment names the proposal and the epoch. -/
def Names (proposal : String) : Prop :=
  ballot.voteCommitment.proposalId = proposal ∧ ballot.voteCommitment.epoch = self.currentEpoch

/-- What `castVote` checks before it looks at other ballots. -/
def Checked : Prop :=
  ballot.encryptedBallot.verifyHash sha256 = true ∧ ballot.voteCommitment.verifyHash sha256 = true ∧
    ballot.epoch = self.currentEpoch

/-- The hash is new for the proposal, and the nonce for all proposals. -/
def Unused : Prop :=
  ballot.hash ∉ self.recorded VotingBallot.hash ballot.proposalId ∧
    ∀ proposal, ballot.nonce ∉ self.recorded VotingBallot.nonce proposal

/-- The ballot is where it belongs and the first of its voter there. -/
def Proper : Prop :=
  self.Names ballot ballot.proposalId ∧ ballot.voter ∉ self.recorded VotingBallot.voter ballot.proposalId

/-- A ballot that has to be accepted: its nonce is new for its voter. -/
def Owed : Prop :=
  self.Checked sha256 ballot ∧ self.Proper ballot ∧
    ∀ proposal, (ballot.voter, ballot.nonce) ∉ self.recorded (fun other => (other.voter, other.nonce)) proposal

/-- Unused hashes and nonces are those of proper ballots, and ballots that have
to be accepted have them. -/
def Fair : Prop :=
  self.Checked sha256 ballot →
    (self.Unused ballot → self.Proper ballot) ∧ (self.Owed sha256 ballot → self.Unused ballot)

end Calls

/-- A voter has one ballot for a proposal, and it names the proposal and the
epoch. -/
structure OneBallot (engine : ZKVotingEngine) : Prop where
  once : ∀ proposal, (engine.recorded VotingBallot.voter proposal).Nodup
  named : ∀ proposal, ∀ ballot ∈ engine.proposalBallots proposal, engine.Names ballot proposal

/-- The sets that `castVote` consults hold what the recorded ballots hold. -/
structure Mirrors (engine : ZKVotingEngine) : Prop where
  voters : ∀ proposal hash, hash ∈ engine.proposalVoters proposal ↔ hash ∈ engine.recorded VotingBallot.hash proposal
  nonces : ∀ nonce, nonce ∈ engine.usedNonces ↔ ∃ proposal, nonce ∈ engine.recorded VotingBallot.nonce proposal

variable {sha256} {self : ZKVotingEngine} {ballot : VotingBallot}

theorem proposalBallots_record (proposal : String) : (self.record ballot).proposalBallots proposal =
    self.proposalBallots proposal ++ if proposal = ballot.proposalId then [ballot] else [] := by
  by_cases here : proposal = ballot.proposalId
  · subst here
    simp [record]
  · simp [record, here]

theorem Mirrors.castVote_cases (mirrors : self.Mirrors) (ballot : VotingBallot) :
    (self.Checked sha256 ballot ∧ self.Unused ballot ∧ self.castVote sha256 ballot = (.ok (), self.record ballot)) ∨
      (¬(self.Checked sha256 ballot ∧ self.Unused ballot) ∧ ∃ e, self.castVote sha256 ballot = (.error e, self)) := by
  unfold castVote
  split
  · rename_i wrong
    exact .inr ⟨fun both => by simp [both.1.1] at wrong, _, rfl⟩
  rename_i hash
  split
  · rename_i wrong
    exact .inr ⟨fun both => by simp [both.1.2.1] at wrong, _, rfl⟩
  rename_i commitment
  split
  · rename_i closed
    exact .inr ⟨fun both => closed both.1.2.2, _, rfl⟩
  rename_i epoch
  split
  · rename_i known
    exact .inr ⟨fun both => both.2.1 ((mirrors.voters _ _).mp known), _, rfl⟩
  rename_i unknown
  split
  · rename_i used
    exact .inr ⟨fun both => ((mirrors.nonces _).mp used).elim both.2.2, _, rfl⟩
  rename_i fresh
  rw [mirrors.voters] at unknown
  rw [mirrors.nonces, not_exists] at fresh
  exact .inl ⟨⟨by simpa using hash, by simpa using commitment, not_not.mp epoch⟩, ⟨unknown, fresh⟩, rfl⟩

theorem Mirrors.castVote (mirrors : self.Mirrors) (ballot : VotingBallot) :
    (self.castVote sha256 ballot).2.Mirrors := by
  rcases mirrors.castVote_cases ballot with ⟨-, -, done⟩ | ⟨-, e, failed⟩
  · rw [done]
    constructor
    · intro proposal hash
      by_cases here : proposal = ballot.proposalId
      · subst here
        simp [record, mirrors.voters, recorded, or_comm, eq_comm]
      · simp [record, here, mirrors.voters, recorded]
    · intro nonce
      simp only [recorded, proposalBallots_record]
      simp [record, mirrors.nonces, recorded, exists_or, or_comm, eq_comm]
  · rwa [failed]

/-- Recording a ballot keeps the voters apart and the ballots in place exactly
if it is proper. -/
theorem OneBallot.record_iff (one : self.OneBallot) : (self.record ballot).OneBallot ↔ self.Proper ballot := by
  have here : (self.record ballot).recorded VotingBallot.voter ballot.proposalId =
      self.recorded VotingBallot.voter ballot.proposalId ++ [ballot.voter] := by
    rw [recorded, proposalBallots_record, if_pos rfl, List.map_append]
    rfl
  constructor
  · intro after
    have once := after.once ballot.proposalId
    rw [here, ← List.concat_eq_append, List.nodup_concat] at once
    refine ⟨after.named _ _ ?_, once.1⟩
    simp [proposalBallots_record]
  · rintro ⟨names, first⟩
    refine ⟨fun proposal => ?_, fun proposal other recorded => ?_⟩
    · by_cases same : proposal = ballot.proposalId
      · rw [same, here, ← List.concat_eq_append, List.nodup_concat]
        exact ⟨first, one.once _⟩
      · rw [recorded, proposalBallots_record, if_neg same, List.append_nil]
        exact one.once proposal
    · rw [proposalBallots_record, List.mem_append] at recorded
      rcases recorded with old | new
      · exact one.named proposal other old
      · split at new
        · rename_i same
          rw [List.mem_singleton.mp new, same]
          exact names
        · cases new

/-- A ballot for "P" whose hashes are right. -/
def craftedBallot (named : String) (commitment voter : UInt8) (nonce : U64) : VotingBallot :=
  let hash := (lastBytes [commitment, voter]).toList
  ⟨"P", ⟨[], (lastBytes hash).toList, [commitment], hash, named, [voter], 0, nonce⟩, 0⟩

def craftedBallots : List VotingBallot :=
  [craftedBallot "P" 1 7 1, craftedBallot "P" 2 7 2, craftedBallot "Q" 1 8 3, craftedBallot "P" 1 9 1]

end ZKVotingEngine

end Bleep.Governance
