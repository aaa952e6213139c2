import Bleep.Pbft.Finality

namespace Bleep

open HashTable (IterOrder)
open Function
open PbftConsensusEngine
open Resumption (Prog Rely Safe)

/-- The running nodes by their validator ids. Only those of honest members
matter; a Byzantine member may do anything that the messages can carry. -/
abbrev Network := String → Replica

def Voted (net : Network) (phase : PbftPhase) (height : U64) (id hash : String) : Prop :=
  pbftVoteMessage phase height hash id ∈ (net id).signed

/-- Every vote the node has signed is for the hash it has recorded at that
height; it may have signed one more than once. -/
structure SignsRecorded (id : String) (replica : Replica) : Prop where
  name : replica.node.localValidatorId = id
  recorded : ∀ message ∈ replica.signed, ∃ phase height hash,
    message = pbftVoteMessage phase height hash id ∧ replica.node.engine.blockHashes.lookup height = some hash

theorem SignsRecorded.votes_once {net id} (signs : SignsRecorded id (net id))
    {phase phase' height hash hash'} (first : Voted net phase height id hash)
    (second : Voted net phase' height id hash') : hash = hash' := by
  obtain ⟨_, _, _, form, lookup⟩ := signs.recorded _ first
  obtain ⟨rfl, rfl⟩ := pbftVoteMessage_inj form
  obtain ⟨_, _, _, form', lookup'⟩ := signs.recorded _ second
  obtain ⟨rfl, rfl⟩ := pbftVoteMessage_inj form'
  exact Option.some.inj (lookup.symm.trans lookup')

section
variable (sphincs : Sphincs) (committee : List (String × Bytes)) (honest : Finset String)

/-- Unforgeability: wherever the bytes come from, if they verify as a vote of
an honest member then that member has signed this vote. -/
def Unforged (net : Network) (signature : Bytes) : Prop :=
  ∀ id ∈ honest, ∀ key, (id, key) ∈ committee → ∀ phase height hash,
    sphincs.verifyDetachedSignature signature (pbftVoteMessage phase height hash id) key = true →
      Voted net phase height id hash

/-- A node just built for this committee, which has not voted yet. -/
structure Launched (id : String) (replica : Replica) : Prop where
  built : ∃ secretKey publicKey p2p,
    LivePbftFinality.new sphincs id committee secretKey publicKey p2p = .ok replica.node
  silent : replica.signed = []

variable (sha3 : Bytes → Hash32) (toVec : PbftMessage → Except String Bytes)

/-- The calls the outside may make on the honest nodes: blocks are arbitrary,
and so are votes, but for what signatures prevent. -/
inductive Call (net : Network) : String → Live Unit → Prop
  | propose {id : String} (σ : IterOrder) (block : Block) (member : id ∈ honest) :
    Call net id (LivePbftFinality.propose sha3 sphincs toVec σ block)
  | receiveProposal {id : String} (σ : IterOrder) (block : Block) (member : id ∈ honest) :
    Call net id (LivePbftFinality.receiveProposal sha3 sphincs toVec σ block)
  | receiveVote {id : String} (phase : PbftPhase) (height : U64) (blockHash validatorId : String)
    (signature : Bytes) (member : id ∈ honest) (unforged : Unforged sphincs committee honest net signature) :
    Call net id (LivePbftFinality.receiveVote sphincs toVec phase height blockHash validatorId signature)

/-- What holds of an honest node. In particular every vote it has signed is
for the one block it has recorded at that height. -/
structure Sound (net : Network) (id : String) (replica : Replica) : Prop where
  name : replica.node.localValidatorId = id
  serves : replica.node.engine.Serves committee
  backed : replica.node.engine.Backed honest (Voted net)
  recorded : ∀ message ∈ replica.signed, ∃ phase height hash,
    message = pbftVoteMessage phase height hash id ∧ replica.node.engine.blockHashes.lookup height = some hash

end

/-- Votes are not taken back and recorded hashes do not change. -/
structure Grown (old new : Replica) : Prop where
  signed : old.signed ⊆ new.signed
  hashes : ∀ height hash, old.node.engine.blockHashes.lookup height = some hash →
    new.node.engine.blockHashes.lookup height = some hash

def pbftRely (committee : List (String × Bytes)) (honest : Finset String) : Rely Network where
  inv net := ∀ id ∈ honest, Sound committee honest net id (net id)
  later net net' := ∀ id, Grown (net id) (net' id)
  refl _ _ := ⟨List.Subset.refl _, fun _ _ => id⟩
  trans first second id := ⟨List.Subset.trans (first id).signed (second id).signed,
    fun height hash recorded => (second id).hashes height hash ((first id).hashes height hash recorded)⟩

section Actions

variable {sphincs : Sphincs} {committee : List (String × Bytes)} {honest : Finset String} {net : Network}
  {place : String} {new : Replica}

theorem voted_update (grown : Grown (net place) new) (phase : PbftPhase) (height : U64) (id hash : String)
    (voted : Voted net phase height id hash) : Voted (Function.update net place new) phase height id hash := by
  by_cases here : id = place
  · subst here
    unfold Voted
    rw [update_self]
    exact grown.signed voted
  · unfold Voted
    rwa [update_of_ne here]

/-- An action at one node keeps the others sound, since votes only grow. -/
theorem kept_of_sound (holds : (pbftRely committee honest).inv net) (grown : Grown (net place) new)
    (sound : Sound committee honest (Function.update net place new) place new) :
    (pbftRely committee honest).inv (Function.update net place new) ∧
      (pbftRely committee honest).later net (Function.update net place new) := by
  constructor
  · intro id member
    by_cases here : id = place
    · subst here
      rwa [update_self]
    · rw [update_of_ne here]
      obtain ⟨name, serves, backed, recorded⟩ := holds id member
      exact ⟨name, serves, backed.mono (voted_update grown), recorded⟩
  · intro id
    by_cases here : id = place
    · subst here
      rwa [update_self]
    · rw [update_of_ne here]
      exact (pbftRely committee honest).refl net id

theorem kept_of_silent (holds : (pbftRely committee honest).inv net) (member : place ∈ honest)
    (silent : new.signed = (net place).signed)
    (name : new.node.localValidatorId = (net place).node.localValidatorId)
    (serves : new.node.engine.Serves committee) (backed : new.node.engine.Backed honest (Voted net))
    (hashes : ∀ height hash, (net place).node.engine.blockHashes.lookup height = some hash →
      new.node.engine.blockHashes.lookup height = some hash) :
    (pbftRely committee honest).inv (Function.update net place new) ∧
      (pbftRely committee honest).later net (Function.update net place new) := by
  have grown : Grown (net place) new := ⟨silent ▸ List.Subset.refl _, hashes⟩
  have before := holds place member
  refine kept_of_sound holds grown ⟨name.trans before.name, serves, backed.mono (voted_update grown), ?_⟩
  intro message signed
  obtain ⟨phase, height, hash, form, recorded⟩ := before.recorded message (silent ▸ signed)
  exact ⟨phase, height, hash, form, hashes height hash recorded⟩

end Actions

/-- Neither the engine nor the votes are touched. -/
structure Quiet (old new : Replica) : Prop where
  name : new.node.localValidatorId = old.node.localValidatorId
  engine : new.node.engine = old.node.engine
  signed : new.signed = old.signed

namespace LivePbftFinality

section Quiet

theorem quiet_critical {α : Type} {body : Replica → Except String (Replica × α)}
    (ends : ∀ replica new value, body replica = .ok (new, value) → Quiet replica new) :
    (Prog.critical body).Each Quiet :=
  Prog.Each.critical (fun _ => ⟨rfl, rfl, rfl⟩) ends

theorem quiet_claimPrepare (height : U64) : (claimPrepare height).Each Quiet := by
  refine quiet_critical fun replica new value ran => ?_
  cases ran
  exact ⟨rfl, rfl, rfl⟩

theorem quiet_claimCommit (height : U64) : (claimCommit height).Each Quiet := by
  refine quiet_critical fun replica new value ran => ?_
  cases ran
  exact ⟨rfl, rfl, rfl⟩

theorem quiet_broadcast {toVec : PbftMessage → Except String Bytes} (message : PbftMessage) :
    (broadcast toVec message).Each Quiet := by
  refine quiet_critical fun replica new value ran => ?_
  split at ran
  · split at ran
    · cases ran
    cases ran
    exact ⟨rfl, rfl, rfl⟩
  · cases ran
    exact ⟨rfl, rfl, rfl⟩

theorem quiet_checkProposer (block : Block) : (checkProposer block).Each Quiet := by
  refine quiet_critical fun replica new value ran => ?_
  split at ran
  · cases ran
  split at ran
  · cases ran
  cases ran
  exact ⟨rfl, rfl, rfl⟩

end Quiet

section Calls

variable {sha3 : Bytes → Hash32} {sphincs : Sphincs} {toVec : PbftMessage → Except String Bytes}
  {committee : List (String × Bytes)} {honest : Finset String} {net : Network} {place : String}

/-- The votes that reach the engine are counted without loss of the invariant,
whoever they are said to be from. -/
theorem submitVote_ok {voted engine next phase height id misplaced signature value}
    (serves : engine.Serves committee) (backed : engine.Backed honest voted)
    (cast : ∀ key hash, (id, key) ∈ committee → engine.blockHashes.lookup height = some hash →
      sphincs.verifyDetachedSignature signature (pbftVoteMessage phase height hash id) key = true →
        id ∈ honest → voted phase height id hash)
    (ran : submitVote sphincs phase height id signature misplaced engine = .ok (next, value)) :
    next.Serves committee ∧ next.Backed honest voted ∧ next.blockHashes = engine.blockHashes := by
  -- a vote that verifies has a recorded hash, which an honest voter voted for
  have verified_cast (verified : engine.verifyVote sphincs phase height id signature = .ok ()) :
      ∃ hash, engine.blockHashes.lookup height = some hash ∧ (id ∈ honest → voted phase height id hash) := by
    obtain ⟨key, hash, registered, recorded, valid⟩ := verifyVote_ok verified
    exact ⟨hash, recorded, cast key hash ((serves.key id key).mp registered) recorded valid⟩
  cases phase with
  | prePrepare => cases ran
  | prepare =>
    simp only [submitVote] at ran
    split at ran
    · cases ran
    rename_i processed
    cases ran
    rcases processPrepare_ok processed with rfl | ⟨-, known, verified, rfl⟩
    · exact ⟨serves, backed, rfl⟩
    · obtain ⟨hash, recorded, voter⟩ := verified_cast verified
      have same := engine.sameRecords_countPrepare height id
      exact ⟨serves.of_sameRecords same, backed.countPrepare serves.quorum known recorded voter, same.blockHashes⟩
  | commit =>
    simp only [submitVote] at ran
    split at ran
    · cases ran
    rename_i processed
    cases ran
    rcases processCommit_ok processed with rfl | ⟨prepared, known, verified, rfl⟩
    · exact ⟨serves, backed, rfl⟩
    obtain ⟨hash, recorded, voter⟩ := verified_cast verified
    have same := engine.sameRecords_countCommit height id
    exact ⟨serves.of_sameRecords same, backed.countCommit serves.quorum prepared known recorded voter,
      same.blockHashes⟩

section
variable (member : place ∈ honest)
include member

theorem safe_lockEngine {α : Type} {body : PbftConsensusEngine → Except String (PbftConsensusEngine × α)}
    (ends : ∀ t engine value, (pbftRely committee honest).later net t →
      Sound committee honest t place (t place) → body (t place).node.engine = .ok (engine, value) →
        engine.Serves committee ∧ engine.Backed honest (Voted t) ∧
          ∀ height hash, (t place).node.engine.blockHashes.lookup height = some hash →
            engine.blockHashes.lookup height = some hash) :
    Safe (pbftRely committee honest) place (fun _ _ => True) net (lockEngine body) := by
  refine Safe.critical fun t new value evolved holds ran => ?_
  split at ran
  · cases ran
  rename_i engine _ outcome
  cases ran
  obtain ⟨serves, backed, hashes⟩ := ends t engine _ evolved (holds place member) outcome
  exact and_assoc.mp ⟨kept_of_silent holds member rfl rfl serves backed hashes, trivial⟩

theorem safe_of_quiet {α : Type} {prog : Live α} (quiet : prog.Each Quiet) :
    Safe (pbftRely committee honest) place (fun _ _ => True) net prog :=
  Safe.of_each quiet fun _ _ holds kept => kept_of_silent holds member kept.signed kept.name
    (kept.engine ▸ (holds place member).serves) (kept.engine ▸ (holds place member).backed)
    fun _ _ => by rw [kept.engine]; exact id

theorem safe_startProposal (σ : IterOrder) (block : Block) :
    Safe (pbftRely committee honest) place (fun _ _ => True) net (startProposal sha3 sphincs σ block) := by
  refine safe_lockEngine member fun t engine value _ sound ran => ?_
  split at ran
  · split at ran
    · cases ran
    cases ran
    exact ⟨sound.serves, sound.backed, fun _ _ => id⟩
  rename_i fresh
  split at ran
  · cases ran
  rename_i admitted
  cases ran
  cases prePrepare_ok admitted
  exact ⟨⟨sound.serves.known, sound.serves.quorum, sound.serves.key⟩, sound.backed.admitProposal fresh,
    fun _ _ => blockHashes_admitProposal fresh⟩

variable (phase : PbftPhase)

variable (height : U64)

/-- Signing is the one action that adds to the votes; what it signs is what
the node has recorded, and later actions can rely on both. -/
theorem safe_signLocalVote :
    Safe (pbftRely committee honest) place
      (fun t vote => vote.validatorId = place ∧
        (t place).node.engine.blockHashes.lookup height = some vote.blockHash ∧
        Voted t phase height place vote.blockHash)
      net (signLocalVote sphincs phase height) := by
  refine Safe.critical fun t new vote _ holds ran => ?_
  split at ran
  · cases ran
  rename_i hash recorded
  split at ran
  · cases ran
  cases ran
  have before := holds place member
  have grown : Grown (t place) { t place with
      signed := (t place).signed ++ [pbftVoteMessage phase height hash (t place).node.localValidatorId] } :=
    ⟨List.subset_append_left _ _, fun _ _ => id⟩
  have sound := kept_of_sound holds grown ⟨before.name, before.serves, before.backed.mono (voted_update grown), ?_⟩
  · refine ⟨sound.1, sound.2, before.name, ?_, ?_⟩
    · rw [update_self]
      exact recorded
    · unfold Voted
      rw [update_self, before.name]
      simp
  · intro message signed
    rcases List.mem_append.mp signed with old | new
    · exact before.recorded message old
    · rw [List.mem_singleton.mp new, before.name]
      exact ⟨phase, height, hash, rfl, recorded⟩

theorem safe_castVote :
    Safe (pbftRely committee honest) place (fun _ _ => True) net (castVote sphincs toVec phase height) := by
  refine (safe_signLocalVote member phase height).bind fun t vote _ ⟨own, recorded, voted⟩ => ?_
  have counted : Safe (pbftRely committee honest) place (fun _ _ => True) t (lockEngine (submitVote sphincs phase
      height vote.validatorId vote.signature "Cannot sign a PBFT pre-prepare vote")) := by
    refine safe_lockEngine member fun u engine value evolved sound ran => ?_
    -- the hash is still the one that was signed
    have still := (evolved place).hashes height vote.blockHash recorded
    obtain ⟨serves, backed, hashes⟩ := submitVote_ok sound.serves sound.backed
      (fun key hash _ found _ _ => by
        rw [still] at found
        cases found
        rw [own]
        exact (evolved place).signed voted) ran
    exact ⟨serves, backed, hashes ▸ fun _ _ => id⟩
  exact counted.bind fun u _ _ _ => safe_of_quiet member (quiet_broadcast _)

theorem safe_startLocalCommitIfPrepared :
    Safe (pbftRely committee honest) place (fun _ _ => True) net
      (startLocalCommitIfPrepared sphincs toVec height) := by
  have looked : Safe (pbftRely committee honest) place (fun _ _ => True) net
      (lockEngine fun engine => .ok (engine, engine.blockState height)) := by
    refine safe_lockEngine member fun t engine value _ sound ran => ?_
    cases ran
    exact ⟨sound.serves, sound.backed, fun _ _ => id⟩
  refine looked.bind fun t state _ _ => ?_
  split
  · trivial
  refine (safe_of_quiet member (quiet_claimCommit height)).bind fun u first _ _ => ?_
  split
  · exact safe_castVote member .commit height
  · trivial

theorem safe_sendLocalVote :
    Safe (pbftRely committee honest) place (fun _ _ => True) net (sendLocalVote sphincs toVec phase height) := by
  unfold sendLocalVote
  split
  · refine (safe_of_quiet member (quiet_claimPrepare height)).bind fun t first _ _ => ?_
    split
    · exact (safe_castVote member phase height).bind fun u _ _ _ => safe_startLocalCommitIfPrepared member height
    · trivial
  · exact safe_castVote member phase height

end

/-- Every call the outside can make is safe, in whatever states it is made. -/
theorem safe_call {prog : Live Unit} (called : Call sphincs committee honest sha3 toVec net place prog) :
    Safe (pbftRely committee honest) place (fun _ _ => True) net prog := by
  cases called with
  | propose σ block member =>
    refine (safe_of_quiet member (quiet_checkProposer block)).bind fun t _ _ _ => ?_
    refine (safe_startProposal member σ block).bind fun u _ _ _ => ?_
    refine (safe_of_quiet member (quiet_broadcast _)).bind fun v _ _ _ => ?_
    exact safe_sendLocalVote member .prepare block.index
  | receiveProposal σ block member =>
    refine (safe_startProposal member σ block).bind fun t isNew _ _ => ?_
    split
    · exact safe_sendLocalVote member .prepare block.index
    · trivial
  | receiveVote phase height blockHash validatorId signature member unforged =>
    have counted : Safe (pbftRely committee honest) place (fun _ _ => True) net (lockEngine fun engine =>
        if engine.blockHashes.lookup height ≠ some blockHash then
          .error ("PBFT vote from " ++ validatorId ++ " refers to an unknown block at height " ++ toString height.toNat)
        else submitVote sphincs phase height validatorId signature
          "PBFT proposal phase cannot be submitted as a vote" engine) := by
      refine safe_lockEngine member fun t engine value evolved sound ran => ?_
      split at ran
      · cases ran
      obtain ⟨serves, backed, hashes⟩ := submitVote_ok sound.serves sound.backed
        (fun key hash listed _ valid voter =>
          (evolved validatorId).signed (unforged validatorId voter key listed phase height hash valid)) ran
      exact ⟨serves, backed, hashes ▸ fun _ _ => id⟩
    refine counted.bind fun t _ _ _ => ?_
    split
    · exact safe_startLocalCommitIfPrepared member height
    · trivial

end Calls

theorem new_ok {sphincs id committee secretKey publicKey p2p node}
    (built : new sphincs id committee secretKey publicKey p2p = .ok node) :
    node.localValidatorId = id ∧
      newWithValidatorKeys sphincs id committee = .ok node.engine := by
  unfold new at built
  split at built
  · cases built
  split at built
  · cases built
  split at built
  · cases built
  split at built
  · cases built
  simp only at built
  split at built
  · cases built
  split at built
  · cases built
  rename_i engine initialized
  cases Except.ok.inj built
  exact ⟨rfl, initialized⟩

end LivePbftFinality

end Bleep
