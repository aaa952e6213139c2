import Bleep.Pbft.Delivery

namespace Bleep

open HashTable (HashMap)
open List

namespace PbftConsensusEngine

section Edits
variable (engine : PbftConsensusEngine)

/-- The number of members and the quorum follow the known validators. -/
def recount (knownValidators : Finset String) (validatorPubkeys : HashMap String Bytes) : PbftConsensusEngine :=
  { engine with
    knownValidators := knownValidators
    validatorPubkeys := validatorPubkeys
    totalValidators := knownValidators.card
    quorumSize := knownValidators.card * 2 / 3 + 1 }

def addValidatorWithPublicKey (sphincs : Sphincs) (validatorId : String) (publicKey : Bytes) :
    Except ConsensusError PbftConsensusEngine :=
  if validatorId = "" ∨ publicKey.length ≠ sphincsPkLen then
    .error (.proposalRejected "Invalid validator ID or SPHINCS+ public key")
  else
    match sphincs.publicKey publicKey with
    | .error e => .error (.proposalRejected ("Invalid SPHINCS+ public key: " ++ e))
    | .ok _ => .ok (engine.recount (insert validatorId engine.knownValidators)
        (engine.validatorPubkeys.insert validatorId publicKey))

def removeValidator (validatorId : String) : PbftConsensusEngine :=
  let knownValidators := engine.knownValidators.erase validatorId
  { engine.recount knownValidators (engine.validatorPubkeys.erase validatorId) with
    quorumSize := if 0 < knownValidators.card then knownValidators.card * 2 / 3 + 1 else 1 }

/-- Two engines that know the same validators and stand at the same votes and
block states. -/
structure Agrees (other : PbftConsensusEngine) : Prop where
  known : engine.knownValidators = other.knownValidators
  quorum : engine.quorumSize = other.quorumSize
  votes : ∀ phase height, engine.votes phase height = other.votes phase height
  states : ∀ height, engine.finalizedBlocks.lookup height = other.finalizedBlocks.lookup height

/-- Every voter stays with its key, and the quorum of the new committee moves
no block. -/
structure Undisturbed (committee : List (String × Bytes)) : Prop where
  voters : ∀ phase height, ∀ voter ∈ engine.votes phase height, ∃ key, (voter, key) ∈ committee ∧
    engine.validatorPubkeys.lookup voter = some key
  proposed : ∀ height, engine.finalizedBlocks.lookup height = some .proposed →
    ¬Quorum.threshold committee.length ≤ (engine.votes .prepare height).card
  prepared : ∀ height, engine.finalizedBlocks.lookup height = some .prepared →
    Quorum.threshold committee.length ≤ (engine.votes .prepare height).card ∧
      ¬Quorum.threshold committee.length ≤ (engine.votes .commit height).card

end Edits

/-- A turn leaves the state as it is exactly when the votes fit it, and then
nothing is noted. -/
theorem Turn.keeps_iff {prepares commits : Prop} {state after noted}
    (turn : Turn prepares commits state (after, noted)) :
    (after = state ↔ (state = .proposed → ¬prepares) ∧ (state = .prepared → prepares ∧ ¬commits)) ∧
      (after = state → noted = .unchanged) := by
  cases turn with
  | final => simp
  | waits few => simp [few]
  | rollsBack few => simp [few]
  | prepares enough few pending => cases state <;> simp_all
  | commits prepared enough pending => cases state <;> simp_all

variable {engine next : PbftConsensusEngine} {publicKeys : HashMap String Bytes}

/-- Where no block is moved, the votes of the retained voters are what stays. -/
theorem votes_replaceCommittee_of_kept (kept : ∀ height state, engine.finalizedBlocks.lookup height = some state →
      (engine.outcome publicKeys height state).1 = state) (phase : PbftPhase) (height : U64) :
    (engine.replaceCommittee publicKeys).votes phase height = engine.pruned publicKeys phase height := by
  have quiet (state : PbftBlockState) (found : engine.finalizedBlocks.lookup height = some state) :
      (engine.outcome publicKeys height state).2 = .unchanged :=
    (outcome_turn engine publicKeys height state).keeps_iff.2 (kept height state found)
  cases phase with
  | prePrepare => exact (Finset.empty_inter _).symm
  | prepare =>
    rw [prepareVotes_replaceCommittee, if_neg]
    rintro ⟨state, found, noted⟩
    rw [quiet state found] at noted
    cases noted
  | commit =>
    rw [commitVotes_replaceCommittee, if_neg]
    rintro ⟨state, found, noted⟩
    exact noted (quiet state found)

theorem votes_recount (known : Finset String) (phase : PbftPhase) (height : U64) :
    (engine.recount known publicKeys).votes phase height = engine.votes phase height := by
  cases phase <;> rfl

theorem recount_agrees_iff {sphincs committee}
    (replaced : engine.setCommittee sphincs committee = .ok next) (known : Finset String)
    (keys : HashMap String Bytes) :
    (engine.recount known keys).Agrees next ↔
      known = (committee.map Prod.fst).toFinset ∧ engine.Undisturbed committee := by
  unfold setCommittee at replaced
  split at replaced
  · cases replaced
  split at replaced
  · cases replaced
  rename_i publicKeys registered
  cases Except.ok.inj replaced
  obtain ⟨nodup, members, listed⟩ := entries_of_registered registered
  have quorum : (engine.replaceCommittee publicKeys).quorumSize = Quorum.threshold committee.length := by
    change publicKeys.keys.toFinset.card * 2 / 3 + 1 = _
    rw [members, toFinset_card_of_nodup nodup, length_map]
    rfl
  have retained {voter : String} : voter ∈ engine.retainedVoters publicKeys ↔
      ∃ key, (voter, key) ∈ committee ∧ engine.validatorPubkeys.lookup voter = some key := by
    rw [retainedVoters, Finset.mem_filter, mem_toFinset, ← AList.mem_keys, ← AList.lookup_isSome,
      Option.isSome_iff_exists]
    constructor
    · rintro ⟨⟨key, found⟩, same⟩
      exact ⟨key, (listed voter key).mp found, same.trans found⟩
    · rintro ⟨key, member, own⟩
      have found := (listed voter key).mpr member
      exact ⟨⟨key, found⟩, own.trans found.symm⟩
  have turn height state := (outcome_turn engine publicKeys height state).keeps_iff.1
  rw [quorum] at turn
  constructor
  · intro agrees
    have kept (height : U64) (state : PbftBlockState) (found : engine.finalizedBlocks.lookup height = some state) :
        (engine.outcome publicKeys height state).1 = state := by
      have same : engine.finalizedBlocks.lookup height = _ := agrees.states height
      rw [finalizedBlocks_replaceCommittee, found] at same
      exact (Option.some.inj same).symm
    have votes (phase : PbftPhase) (height : U64) : engine.votes phase height = engine.pruned publicKeys phase height := by
      rw [← votes_replaceCommittee_of_kept kept, ← agrees.votes, votes_recount]
    refine ⟨agrees.known.trans members, fun phase height voter voted => ?_, fun height found => ?_,
      fun height found => ?_⟩
    · rw [votes] at voted
      exact retained.mp (Finset.mem_inter.mp voted).2
    · rw [votes]
      exact ((turn height _).mp (kept height _ found)).1 rfl
    · rw [votes, votes]
      exact ((turn height _).mp (kept height _ found)).2 rfl
  · rintro ⟨rfl, undisturbed⟩
    have votes (phase : PbftPhase) (height : U64) : engine.pruned publicKeys phase height = engine.votes phase height :=
      Finset.inter_eq_left.mpr fun voter voted => retained.mpr (undisturbed.voters phase height voter voted)
    simp only [votes] at turn
    have kept (height : U64) (state : PbftBlockState) (found : engine.finalizedBlocks.lookup height = some state) :
        (engine.outcome publicKeys height state).1 = state := by
      refine (turn height state).mpr ⟨?_, ?_⟩
      · rintro rfl
        exact undisturbed.proposed height found
      · rintro rfl
        exact undisturbed.prepared height found
    refine ⟨members.symm, ?_, fun phase height => ?_, fun height => ?_⟩
    · rw [quorum, recount, toFinset_card_of_nodup nodup, length_map]
      rfl
    · rw [votes_recount, votes_replaceCommittee_of_kept kept, votes]
    · rw [finalizedBlocks_replaceCommittee]
      cases found : engine.finalizedBlocks.lookup height with
      | none => exact found
      | some state => exact found.trans (congrArg some (kept height state found).symm)

/-- An edit agrees with the replacement of the whole committee exactly when the
known validators are those with a key, every voter stays with its key, and no
block moves at the new quorum. -/
theorem committee_edits_agree_iff (sphincs : Sphincs) (engine : PbftConsensusEngine) (id : String) :
    (∀ committee next, committee.Perm (HashTable.pairs (engine.validatorPubkeys.erase id)) →
      engine.setCommittee sphincs committee = .ok next →
      ((engine.removeValidator id).Agrees next ↔
        engine.knownValidators.erase id = (committee.map Prod.fst).toFinset ∧ engine.Undisturbed committee)) ∧
    ∀ key added committee next, engine.addValidatorWithPublicKey sphincs id key = .ok added →
      committee.Perm (HashTable.pairs (engine.validatorPubkeys.insert id key)) →
      engine.setCommittee sphincs committee = .ok next →
      (added.Agrees next ↔
        insert id engine.knownValidators = (committee.map Prod.fst).toFinset ∧ engine.Undisturbed committee) := by
  refine ⟨fun committee next _ replaced => ?_, fun key added committee next edited _ replaced => ?_⟩
  · have quorum (n : Nat) : (if 0 < n then n * 2 / 3 + 1 else 1) = n * 2 / 3 + 1 := by split <;> omega
    have counted : engine.removeValidator id =
        engine.recount (engine.knownValidators.erase id) (engine.validatorPubkeys.erase id) := by
      rw [removeValidator, quorum]
      rfl
    rw [counted]
    exact recount_agrees_iff replaced _ _
  · unfold addValidatorWithPublicKey at edited
    split at edited
    · cases edited
    split at edited
    · cases edited
    cases edited
    exact recount_agrees_iff replaced _ _

end PbftConsensusEngine

open PbftConsensusEngine

/-- One of two members has prepared the block. Without the other its vote is a
quorum, and with another key it counts no more; the edits see neither. -/
theorem duo_edits_disagree :
    ∃ replica, Reached zeroSha3 sizedSphincs (fun _ => .ok []) "solo" replica ∧
      (replica.node.engine.removeValidator "peer").blockState 1 = some .proposed ∧
      ((replica.node.engine.setCommittee sizedSphincs [("solo", soloKey)]).toOption.map (·.blockState 1)) =
        some (some .prepared) ∧
      ((replica.node.engine.addValidatorWithPublicKey sizedSphincs "solo" peerKey).toOption.map (·.votes .prepare 1)) =
        some {"solo"} ∧
      ((replica.node.engine.setCommittee sizedSphincs [("peer", peerKey), ("solo", peerKey)]).toOption.map
        (·.votes .prepare 1)) = some ∅ := by
  obtain ⟨replica, reached, proposed⟩ := duo_reached
  have length : peerKey.length = sphincsPkLen := length_replicate
  have accepted := sizedSphincs_publicKey length
  have alone : registerKeys sizedSphincs ∅ [("solo", soloKey)] = .ok _ :=
    registerKeys_soloKey (by decide)
  have rekeyed : registerKeys sizedSphincs ∅ [("peer", peerKey), ("solo", peerKey)] =
      .ok (AList.insert "solo" peerKey (AList.insert "peer" peerKey ∅)) := by
    simp only [registerKeys, accepted, length]
    rfl
  refine ⟨replica, reached, ?_⟩
  rw [proposed]
  refine ⟨by decide, ?_, ?_, ?_⟩
  · simp only [setCommittee, alone]
    decide
  · rfl
  · simp only [setCommittee, rekeyed]
    decide

end Bleep
