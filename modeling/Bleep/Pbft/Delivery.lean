import Bleep.Pbft.Rotation
import Bleep.Library.TwoPhase

namespace Bleep

open Resumption (Prog Reach)
open List Finset
open LivePbftFinality PbftConsensusEngine TwoPhase PbftBlockState
open TwoPhase (Ballot Stage Tally addCommits count)

/-- A vote as `receive_vote` is given it, for a block that is fixed. -/
structure PbftVote where
  phase : PbftPhase
  validatorId : String
  signature : Bytes

open PbftVote

/-- A vote of a member with a valid signature over the recorded block. -/
structure PbftVote.Valid (sphincs : Sphincs) (engine : PbftConsensusEngine) (height : U64) (vote : PbftVote) : Prop where
  cast : vote.phase ≠ .prePrepare
  known : vote.validatorId ∈ engine.knownValidators
  verified : engine.verifyVote sphincs vote.phase height vote.validatorId vote.signature = .ok ()

def PbftVote.ballot : PbftVote → Ballot String
  | ⟨.commit, id, _⟩ => .commit id
  | ⟨_, id, _⟩ => .prepare id

/-- The members that these votes are from. -/
def voters (phase : PbftPhase) (votes : List PbftVote) : Finset String :=
  ((votes.filter fun vote => vote.phase = phase).map validatorId).toFinset

def PbftBlockState.ofStage : Stage → PbftBlockState
  | .proposed => .proposed
  | .prepared => .prepared
  | .committed => .committed

theorem PbftBlockState.ofStage_injective : Function.Injective ofStage := by
  intro first second same
  cases first <;> cases second <;> first | rfl | cases same

variable {id : String} {phase : PbftPhase}

namespace LivePbftFinality

variable (sphincs : Sphincs) {next : PbftConsensusEngine}

/-- The votes come in one after the other. -/
def deliver (toVec : PbftMessage → Except String Bytes) (height : U64) (blockHash : String)
    (replica : Replica) (votes : List PbftVote) : Replica :=
  votes.foldl (fun replica vote =>
    ((receiveVote sphincs toVec vote.phase height blockHash vote.validatorId vote.signature).run replica).1) replica

/-- The node's key signs, and the engine counts what it signs. -/
def SignsCommit (node : LivePbftFinality) (height : U64) (blockHash : String) : Prop :=
  sphincs.secretKey node.localSecretKey = .ok () ∧ node.localValidatorId ∈ node.engine.knownValidators ∧
    node.engine.verifyVote sphincs .commit height node.localValidatorId
      (sphincs.detachedSign (pbftVoteMessage .commit height blockHash node.localValidatorId) node.localSecretKey) =
        .ok ()

instance (sphincs : Sphincs) (node : LivePbftFinality) (height : U64) (blockHash : String) :
    Decidable (SignsCommit sphincs node height blockHash) := inferInstanceAs (Decidable (_ ∧ _ ∧ _))

/-- The commit vote that the node still has to add of its own, if any. -/
def ownCommits (node : LivePbftFinality) (height : U64) (blockHash : String) : Finset String :=
  if height ∉ node.localCommitSent ∧ SignsCommit sphincs node height blockHash then {node.localValidatorId} else ∅

section Runs
variable {sphincs : Sphincs} {toVec : PbftMessage → Except String Bytes} {replica : Replica} {height : U64}
  {hash : String} {α : Type} {engine : PbftConsensusEngine} {signature : Bytes}

theorem run_lockEngine {body : PbftConsensusEngine → Except String (PbftConsensusEngine × α)} {value : α}
    (ends : body replica.node.engine = .ok (engine, value)) :
    (lockEngine body).run replica = ({ replica with node.engine := engine }, .ok value) := by
  simp only [lockEngine, Prog.critical, Prog.run, ends]

theorem node_broadcast (message : PbftMessage) : ((broadcast toVec message).run replica).1.node = replica.node := by
  simp only [broadcast, Prog.critical, Prog.run]
  split
  · rename_i sent _ done
    split at done
    · split at done
      · cases done
      cases done
      rfl
    · cases done
      rfl
  · rfl

/-- The engine that is left when its lock is released. -/
def unlocked {α : Type} (engine : PbftConsensusEngine) :
    Except String (PbftConsensusEngine × α) → PbftConsensusEngine
  | .ok (next, _) => next
  | .error _ => engine

theorem node_lockEngine (body : PbftConsensusEngine → Except String (PbftConsensusEngine × α)) :
    ((lockEngine body).run replica).1.node =
      { replica.node with engine := unlocked replica.node.engine (body replica.node.engine) } := by
  cases ends : body replica.node.engine <;> simp only [lockEngine, Prog.critical, Prog.run, ends, unlocked]

theorem node_bind {β : Type} {prog : Live α} {rest : α → Live β}
    (keeps : ∀ value after, ((rest value).run after).1.node = after.node) :
    ((prog >>= rest).run replica).1.node = (prog.run replica).1.node := by
  rw [Prog.run_bind]
  split
  · rename_i after value ran
    rw [keeps, ran]
  · rename_i after error ran
    rw [ran]

theorem engine_submitCommit {misplaced} (prepared : engine.finalizedBlocks.lookup height = some .prepared) :
    unlocked engine (submitVote sphincs .commit height id signature misplaced engine) =
      if id ∈ engine.knownValidators ∧ engine.verifyVote sphincs .commit height id signature = .ok () then
        engine.countCommit height id
      else engine := by
  simp only [submitVote, processCommit, prepared, ne_eq, not_true_eq_false, if_false]
  by_cases known : id ∈ engine.knownValidators
  · cases verified : engine.verifyVote sphincs .commit height id signature <;> simp [known, unlocked]
  · simp [known, unlocked]

section
variable (recorded : replica.node.engine.blockHashes.lookup height = some hash)
  (prepared : replica.node.engine.finalizedBlocks.lookup height = some .prepared)
include recorded prepared

theorem node_castCommit :
    ((castVote sphincs toVec .commit height).run replica).1.node = { replica.node with
      engine :=
        if SignsCommit sphincs replica.node height hash then
          replica.node.engine.countCommit height replica.node.localValidatorId
        else replica.node.engine } := by
  rw [castVote, Prog.run_bind]
  cases accepted : sphincs.secretKey replica.node.localSecretKey with
  | error e =>
    have fails : (signLocalVote sphincs .commit height).run replica =
        (replica, .error ("Invalid local PBFT secret key: " ++ e)) := by
      simp only [signLocalVote, Prog.critical, Prog.run, recorded, accepted]
    rw [fails, if_neg fun signs => by cases accepted.symm.trans signs.1]
  | ok _ =>
    let message := pbftVoteMessage .commit height hash replica.node.localValidatorId
    have signs : (signLocalVote sphincs .commit height).run replica =
        ({ replica with signed := replica.signed ++ [message] }, .ok ⟨hash, replica.node.localValidatorId,
          sphincs.detachedSign message replica.node.localSecretKey⟩) := by
      simp only [signLocalVote, Prog.critical, Prog.run, recorded, accepted, message]
    rw [signs]
    rw [node_bind fun _ _ => node_broadcast _, node_lockEngine, engine_submitCommit prepared]
    simp [SignsCommit, accepted, message]

/-- A node that has prepared the block adds its own commit, once. -/
theorem node_startLocalCommit :
    ((startLocalCommitIfPrepared sphincs toVec height).run replica).1.node = { replica.node with
      localCommitSent := insert height replica.node.localCommitSent
      engine :=
        if height ∉ replica.node.localCommitSent ∧ SignsCommit sphincs replica.node height hash then
          replica.node.engine.countCommit height replica.node.localValidatorId
        else replica.node.engine } := by
  have looks : (lockEngine fun engine => .ok (engine, engine.blockState height)).run replica =
      (replica, .ok (some .prepared)) := by
    rw [run_lockEngine rfl, blockState, prepared]
  have claims : (claimCommit height).run replica =
      ({ replica with node.localCommitSent := insert height replica.node.localCommitSent },
        .ok (decide (height ∉ replica.node.localCommitSent))) := rfl
  rw [startLocalCommitIfPrepared, Prog.run_bind, looks]
  simp only [ne_eq, not_true_eq_false, if_false]
  rw [Prog.run_bind, claims]
  by_cases sent : height ∈ replica.node.localCommitSent
  · simp only [sent, not_true_eq_false, decide_false, Bool.false_eq_true, if_false, false_and]
    rfl
  · simp only [sent, not_false_eq_true, decide_true, if_true, true_and]
    exact node_castCommit recorded prepared

end

theorem node_startLocalCommit_idle (pending : replica.node.engine.finalizedBlocks.lookup height ≠ some .prepared) :
    ((startLocalCommitIfPrepared sphincs toVec height).run replica).1.node = replica.node := by
  have looks : (lockEngine fun engine => .ok (engine, engine.blockState height)).run replica =
      (replica, .ok (replica.node.engine.finalizedBlocks.lookup height)) := run_lockEngine rfl
  rw [startLocalCommitIfPrepared, Prog.run_bind, looks]
  simp only [ne_eq, pending, not_false_eq_true, if_true]
  rfl

theorem run_receiveVote
    (recorded : replica.node.engine.blockHashes.lookup height = some hash)
    (submits : submitVote sphincs phase height id signature "PBFT proposal phase cannot be submitted as a vote"
      replica.node.engine = .ok (next, ())) :
    (receiveVote sphincs toVec phase height hash id signature).run replica =
      (if phase = .prepare then startLocalCommitIfPrepared sphincs toVec height else pure ()).run
        { replica with node.engine := next } := by
  have counts : (lockEngine fun engine =>
      if engine.blockHashes.lookup height ≠ some hash then
        .error ("PBFT vote from " ++ id ++ " refers to an unknown block at height " ++ toString height.toNat)
      else submitVote sphincs phase height id signature "PBFT proposal phase cannot be submitted as a vote"
        engine).run replica = ({ replica with node.engine := next }, .ok ()) := by
    refine run_lockEngine ?_
    rw [if_neg (not_not.mpr recorded)]
    exact submits
  rw [receiveVote, Prog.run_bind, counts]

end Runs

section Mirrors

/-- The node stands at the height as the abstract counter does. `base` is the
node from which the votes are delivered. -/
structure Mirrors (sphincs : Sphincs) (height : U64) (hash : String) (base : LivePbftFinality) (tally : Tally String)
    (node : LivePbftFinality) : Prop where
  records : base.engine.SameRecords node.engine
  name : node.localValidatorId = base.localValidatorId
  secret : node.localSecretKey = base.localSecretKey
  state : node.engine.finalizedBlocks.lookup height = some (.ofStage tally.stage)
  prepares : tally.stage = .proposed → node.engine.votes .prepare height = tally.prepares
  commits : tally.stage ≠ .committed → node.engine.votes .commit height = tally.commits
  few : tally.stage ≠ .committed → tally.commits.card < base.engine.quorumSize
  sent : tally.stage ≠ .committed → height ∈ node.localCommitSent → base.ownCommits sphincs height hash ⊆ tally.commits
  unsent : height ∉ node.localCommitSent → height ∉ base.localCommitSent

variable {sphincs : Sphincs} {toVec : PbftMessage → Except String Bytes} {replica : Replica} {height : U64}
  {hash id : String} {base node : LivePbftFinality} {tally : Tally String} {engine : PbftConsensusEngine}
  {signature : Bytes}

theorem verifyVote_congr (same : engine.SameRecords next) (phase : PbftPhase)
    (height : U64) (id : String) (signature : Bytes) :
    next.verifyVote sphincs phase height id signature = engine.verifyVote sphincs phase height id signature := by
  simp only [verifyVote, same.validatorPubkeys, same.blockHashes]

theorem Mirrors.signsCommit (mirrors : Mirrors sphincs height hash base tally node) :
    SignsCommit sphincs node height hash ↔ SignsCommit sphincs base height hash := by
  simp [SignsCommit, verifyVote_congr mirrors.records, mirrors.records.knownValidators, mirrors.name, mirrors.secret]

theorem Mirrors.countCommit {claimed} (mirrors : Mirrors sphincs height hash base tally node)
    (prepared : tally.stage = .prepared)
    (sent : height ∈ claimed → base.ownCommits sphincs height hash ⊆ {id} ∪ tally.commits)
    (unsent : height ∉ claimed → height ∉ base.localCommitSent) :
    Mirrors sphincs height hash base (addCommits base.engine.quorumSize {id} tally)
      { node with localCommitSent := claimed, engine := node.engine.countCommit height id } := by
  have pending : tally.stage ≠ .committed := by simp [prepared]
  have records := mirrors.records.trans (node.engine.sameRecords_countCommit height id)
  have state := @PbftConsensusEngine.lookup_countCommit node.engine height height id
  have votes := @PbftConsensusEngine.votes_countCommit node.engine height height id .commit
  rw [mirrors.records.quorumSize, mirrors.commits pending, Finset.insert_eq] at state votes
  unfold addCommits
  by_cases enough : base.engine.quorumSize ≤ ({id} ∪ tally.commits).card
  · rw [if_pos ⟨rfl, enough⟩] at state
    rw [if_pos enough]
    exact ⟨records, mirrors.name, mirrors.secret, state, (fun prepared => by cases prepared), absurd rfl, absurd rfl, absurd rfl, unsent⟩
  · rw [if_neg fun both => enough both.2] at state votes
    rw [if_pos ⟨rfl, rfl⟩] at votes
    rw [if_neg enough]
    refine ⟨records, mirrors.name, mirrors.secret, state.trans mirrors.state, fun proposed => ?_,
      fun _ => votes, fun _ => Nat.lt_of_not_le enough, fun _ => sent, unsent⟩
    cases prepared.symm.trans proposed

theorem Mirrors.countPrepare (mirrors : Mirrors sphincs height hash base tally node)
    (proposed : tally.stage = .proposed) :
    Mirrors sphincs height hash base
      { tally with
        stage := if base.engine.quorumSize ≤ (insert id tally.prepares).card then .prepared else .proposed
        prepares := insert id tally.prepares }
      { node with engine := node.engine.countPrepare height id } := by
  have pending : tally.stage ≠ .committed := by simp [proposed]
  have records := mirrors.records.trans (node.engine.sameRecords_countPrepare height id)
  have votes phase := @PbftConsensusEngine.votes_countPrepare node.engine height height id phase
  have state := @PbftConsensusEngine.lookup_countPrepare node.engine height height id
  rw [mirrors.records.quorumSize, mirrors.prepares proposed, mirrors.state, proposed] at state
  refine ⟨records, mirrors.name, mirrors.secret, ?_, fun _ => ?_, fun _ => ?_, fun _ => mirrors.few pending,
    fun _ => mirrors.sent pending, mirrors.unsent⟩
  · rw [state]
    by_cases enough : base.engine.quorumSize ≤ (insert id tally.prepares).card
    · rw [if_pos ⟨rfl, enough⟩, if_pos enough]
      rfl
    · rw [if_neg fun both => enough both.2, if_neg enough]
  · rw [votes, if_pos ⟨rfl, rfl⟩, mirrors.prepares proposed]
  · rw [votes, if_neg fun both => by cases both.1]
    exact mirrors.commits pending

theorem Mirrors.hashes (mirrors : Mirrors sphincs height hash base tally node)
    (recorded : base.engine.blockHashes.lookup height = some hash) :
    node.engine.blockHashes.lookup height = some hash := by
  rw [mirrors.records.blockHashes]
  exact recorded

theorem Mirrors.localCommit (mirrors : Mirrors sphincs height hash base tally replica.node)
    (recorded : base.engine.blockHashes.lookup height = some hash) (prepared : tally.stage = .prepared) :
    Mirrors sphincs height hash base
      (addCommits base.engine.quorumSize (base.ownCommits sphincs height hash) tally)
      ((startLocalCommitIfPrepared sphincs toVec height).run replica).1.node := by
  have pending : tally.stage ≠ .committed := by simp [prepared]
  have state : replica.node.engine.finalizedBlocks.lookup height = some .prepared := by
    rw [mirrors.state, prepared]
    rfl
  rw [node_startLocalCommit (mirrors.hashes recorded) state]
  by_cases adds : height ∉ replica.node.localCommitSent ∧ SignsCommit sphincs replica.node height hash
  · have own : base.ownCommits sphincs height hash = {replica.node.localValidatorId} := by
      rw [ownCommits, if_pos ⟨mirrors.unsent adds.1, mirrors.signsCommit.mp adds.2⟩, mirrors.name]
    rw [if_pos adds, own]
    refine mirrors.countCommit prepared (fun _ => ?_) fun unclaimed => ?_
    · rw [own]
      exact subset_union_left
    · exact absurd (mem_insert_self _ _) unclaimed
  · have counted : base.ownCommits sphincs height hash ⊆ tally.commits := by
      by_cases sent : height ∈ replica.node.localCommitSent
      · exact mirrors.sent pending sent
      · rw [ownCommits, if_neg fun both => adds ⟨sent, mirrors.signsCommit.mpr both.2⟩]
        exact empty_subset _
    rw [if_neg adds, addCommits_of_subset counted (mirrors.few pending)]
    exact { mirrors with
      sent := fun _ _ => counted
      unsent := fun unclaimed => absurd (mem_insert_self _ _) unclaimed }

variable {misplaced : String} {votes : List PbftVote}

theorem submitPrepare_dropped (past : engine.finalizedBlocks.lookup height ≠ some .proposed) :
    submitVote sphincs .prepare height id signature misplaced engine = .ok (engine, ()) := by
  simp [submitVote, processPrepare, past]

theorem submitCommit_dropped (pending : engine.finalizedBlocks.lookup height ≠ some .prepared) :
    submitVote sphincs .commit height id signature misplaced engine = .ok (engine, ()) := by
  simp [submitVote, processCommit, pending]

section
variable (mirrors : Mirrors sphincs height hash base tally replica.node)
include mirrors

section
variable (recorded : base.engine.blockHashes.lookup height = some hash)
include recorded

theorem Mirrors.receivePrepare (valid : Valid sphincs base.engine height ⟨.prepare, id, signature⟩) :
    Mirrors sphincs height hash base
      (count base.engine.quorumSize (base.ownCommits sphincs height hash) tally (.prepare id))
      ((receiveVote sphincs toVec .prepare height hash id signature).run replica).1.node := by
  have state := mirrors.state
  have hashes := mirrors.hashes recorded
  cases stage : tally.stage with
  | proposed =>
    rw [stage] at state
    have member := mirrors.records.knownValidators ▸ valid.known
    have verified := (verifyVote_congr mirrors.records .prepare height id signature).trans valid.verified
    have submits : submitVote sphincs .prepare height id signature
        "PBFT proposal phase cannot be submitted as a vote" replica.node.engine =
          .ok (replica.node.engine.countPrepare height id, ()) := by
      simp [submitVote, processPrepare, state, ofStage, member, verified]
    have counted := @Mirrors.countPrepare sphincs height hash id base replica.node tally mirrors stage
    rw [run_receiveVote hashes submits, if_pos rfl]
    by_cases enough : base.engine.quorumSize ≤ (insert id tally.prepares).card
    · rw [if_pos enough] at counted
      rw [count_prepare stage enough]
      exact @Mirrors.localCommit sphincs toVec { replica with node.engine := replica.node.engine.countPrepare height id }
        height hash base _ counted recorded rfl
    · rw [if_neg enough] at counted
      have idle : (replica.node.engine.countPrepare height id).finalizedBlocks.lookup height ≠ some .prepared := by
        rw [counted.state]
        simp [ofStage]
      rw [count_prepare_few stage enough, stage, node_startLocalCommit_idle idle]
      exact counted
  | prepared =>
    rw [stage] at state
    have past : replica.node.engine.finalizedBlocks.lookup height ≠ some .proposed := by
      simp [state, ofStage]
    rw [run_receiveVote hashes (submitPrepare_dropped past), if_pos rfl, count_prepare_prepared stage]
    exact mirrors.localCommit recorded stage
  | committed =>
    rw [stage] at state
    have past : replica.node.engine.finalizedBlocks.lookup height ≠ some .proposed := by
      simp [state, ofStage]
    have idle : replica.node.engine.finalizedBlocks.lookup height ≠ some .prepared := by
      simp [state, ofStage]
    rw [run_receiveVote hashes (submitPrepare_dropped past), if_pos rfl, count_committed stage,
      node_startLocalCommit_idle idle]
    exact mirrors

theorem Mirrors.receiveCommit (valid : Valid sphincs base.engine height ⟨.commit, id, signature⟩) :
    Mirrors sphincs height hash base
      (count base.engine.quorumSize (base.ownCommits sphincs height hash) tally (.commit id))
      ((receiveVote sphincs toVec .commit height hash id signature).run replica).1.node := by
  have state := mirrors.state
  have hashes := mirrors.hashes recorded
  by_cases stage : tally.stage = .prepared
  · rw [stage] at state
    have pending : tally.stage ≠ .committed := by simp [stage]
    have member := mirrors.records.knownValidators ▸ valid.known
    have verified := (verifyVote_congr mirrors.records .commit height id signature).trans valid.verified
    have submits : submitVote sphincs .commit height id signature
        "PBFT proposal phase cannot be submitted as a vote" replica.node.engine =
          .ok (replica.node.engine.countCommit height id, ()) := by
      simp [submitVote, processCommit, state, ofStage, member, verified]
    rw [run_receiveVote hashes submits, if_neg (by decide), count_commit stage]
    exact mirrors.countCommit stage (fun sent => (mirrors.sent pending sent).trans subset_union_right) mirrors.unsent
  · have idle : replica.node.engine.finalizedBlocks.lookup height ≠ some .prepared := by
      rw [state]
      exact fun same => stage (ofStage_injective (Option.some.inj same))
    rw [run_receiveVote hashes (submitCommit_dropped idle), if_neg (by decide), count_commit_dropped stage]
    exact mirrors

/-- The node follows the counter through every delivery of valid votes. -/
theorem Mirrors.deliver (valid : ∀ vote ∈ votes, vote.Valid sphincs base.engine height) :
    Mirrors sphincs height hash base
      (run base.engine.quorumSize (base.ownCommits sphincs height hash) tally (votes.map ballot))
      (deliver sphincs toVec height hash replica votes).node := by
  induction votes generalizing replica tally with
  | nil => exact mirrors
  | cons vote rest ih =>
    have first := valid vote (mem_cons_self ..)
    have others : ∀ vote ∈ rest, vote.Valid sphincs base.engine height :=
      fun vote listed => valid vote (mem_cons_of_mem _ listed)
    obtain ⟨phase, id, signature⟩ := vote
    cases phase with
    | prePrepare => exact absurd rfl first.cast
    | prepare => exact ih (mirrors.receivePrepare recorded first) others
    | commit => exact ih (mirrors.receiveCommit recorded first) others

end

end

theorem mirrors_start {log stage} (coherent : node.engine.Coherent log)
    (state : node.engine.finalizedBlocks.lookup height = some (.ofStage stage)) :
    Mirrors sphincs height hash node ⟨stage, node.engine.votes .prepare height, node.engine.votes .commit height⟩ node := by
  refine ⟨⟨rfl, rfl, rfl, rfl⟩, rfl, rfl, state, fun _ => rfl, fun _ => rfl, fun pending => ?_, fun _ sent => ?_, id⟩
  · cases stage with
    | proposed =>
      simp only [(coherent.proposed state).2, card_empty]
      exact coherent.quorum_pos
    | prepared => exact (coherent.prepared state).2
    | committed => exact absurd rfl pending
  · rw [ownCommits, if_neg fun both => both.1 sent]
    exact empty_subset _

/-- At a height that never was proposed, every vote is dropped. -/
theorem node_deliver_unknown (recorded : replica.node.engine.blockHashes.lookup height = some hash)
    (unknown : replica.node.engine.finalizedBlocks.lookup height = none)
    (valid : ∀ vote ∈ votes, vote.Valid sphincs replica.node.engine height) :
    (deliver sphincs toVec height hash replica votes).node = replica.node := by
  induction votes generalizing replica with
  | nil => rfl
  | cons vote rest ih =>
    have first := valid vote (mem_cons_self ..)
    have noPrepare : replica.node.engine.finalizedBlocks.lookup height ≠ some .proposed := by simp [unknown]
    have noCommit : replica.node.engine.finalizedBlocks.lookup height ≠ some .prepared := by simp [unknown]
    have kept : ((receiveVote sphincs toVec vote.phase height hash vote.validatorId
        vote.signature).run replica).1.node = replica.node := by
      obtain ⟨phase, id, signature⟩ := vote
      cases phase with
      | prePrepare => exact absurd rfl first.cast
      | prepare =>
        rw [run_receiveVote recorded (submitPrepare_dropped noPrepare), if_pos rfl]
        exact node_startLocalCommit_idle noCommit
      | commit =>
        rw [run_receiveVote recorded (submitCommit_dropped noCommit), if_neg (by decide)]
        rfl
    refine (ih ?_ ?_ fun vote listed => ?_).trans kept
    · rw [kept]
      exact recorded
    · rw [kept]
      exact unknown
    · rw [kept]
      exact valid vote (mem_cons_of_mem _ listed)

end Mirrors

end LivePbftFinality

section Orders
variable {sphincs : Sphincs} {engine : PbftConsensusEngine} {height : U64} {votes : List PbftVote} {phase : PbftPhase}

theorem mem_voters :
    id ∈ voters phase votes ↔ ∃ vote ∈ votes, vote.phase = phase ∧ vote.validatorId = id := by
  simp only [voters, List.mem_toFinset, List.mem_map, List.mem_filter, decide_eq_true_eq, and_assoc]

theorem committers_ballot : committers (votes.map ballot) = voters .commit votes := by
  ext id
  rw [mem_committers, List.mem_map, mem_voters]
  refine exists_congr fun vote => and_congr_right fun _ => ?_
  obtain ⟨phase, voter, signature⟩ := vote
  cases phase <;> simp [ballot]

theorem preparers_ballot (valid : ∀ vote ∈ votes, vote.Valid sphincs engine height) :
    preparers (votes.map ballot) = voters .prepare votes := by
  ext id
  rw [mem_preparers, List.mem_map, mem_voters]
  refine exists_congr fun vote => and_congr_right fun listed => ?_
  have cast := (valid vote listed).cast
  obtain ⟨phase, voter, signature⟩ := vote
  cases phase <;> simp_all [ballot]

/-- A node as it is at some point of some run. -/
def Reached (sha3 : Bytes → Hash32) (sphincs : Sphincs) (toVec : PbftMessage → Except String Bytes) (id : String)
    (replica : Replica) : Prop :=
  ∃ committee initial system, Launched sphincs committee id (initial id) ∧
    Reach (NodeCall sha3 sphincs toVec) initial system ∧ system.shared id = replica

variable {sha3 : Bytes → Hash32} {toVec : PbftMessage → Except String Bytes} {id hash : String} {replica : Replica}

theorem Reached.coherent (reached : Reached sha3 sphincs toVec id replica) :
    ∃ log, replica.node.engine.Coherent log := by
  obtain ⟨committee, initial, system, launched, reach, rfl⟩ := reached
  obtain ⟨log, audited⟩ := reach_audited reach id
  exact ⟨log, audited.coherent launched⟩

variable {log : List CountedVote} {arrival : List PbftVote} (coherent : replica.node.engine.Coherent log)
  (recorded : replica.node.engine.blockHashes.lookup height = some hash)
include coherent recorded

theorem state_deliver (stage : Stage)
    (state : replica.node.engine.finalizedBlocks.lookup height = some (.ofStage stage))
    (valid : ∀ vote ∈ arrival, vote.Valid sphincs replica.node.engine height) :
    (deliver sphincs toVec height hash replica arrival).node.engine.blockState height =
      some (.ofStage (run replica.node.engine.quorumSize (replica.node.ownCommits sphincs height hash)
        ⟨stage, replica.node.engine.votes .prepare height, replica.node.engine.votes .commit height⟩
        (arrival.map ballot)).stage) :=
  ((mirrors_start coherent state).deliver recorded valid).state

/-- Delivery commits exactly when the commits, the node's own with them, reach
the quorum after the prepares have. -/
theorem deliver_committed_iff (proposed : replica.node.engine.blockState height = some .proposed)
    (valid : ∀ vote ∈ arrival, vote.Valid sphincs replica.node.engine height) :
    (deliver sphincs toVec height hash replica arrival).node.engine.blockState height =
        some .committed ↔
      ∃ before after, arrival = before ++ after ∧
        replica.node.engine.quorumSize ≤ (replica.node.engine.votes .prepare height ∪ voters .prepare before).card ∧
        replica.node.engine.quorumSize ≤
          (replica.node.ownCommits sphincs height hash ∪ voters .commit after).card := by
  obtain ⟨few, none⟩ := coherent.proposed proposed
  have stage (stage : Stage) : some (ofStage stage) = some .committed ↔ stage = .committed :=
    ⟨fun same => ofStage_injective (Option.some.inj same), fun same => same ▸ rfl⟩
  rw [state_deliver coherent recorded .proposed proposed valid, stage, run_stage_committed rfl none few]
  constructor
  · rintro ⟨before, after, split, prepares, commits⟩
    obtain ⟨early, late, rfl, rfl, rfl⟩ := map_eq_append_iff.mp split
    rw [preparers_ballot fun vote listed => valid vote (mem_append_left _ listed)] at prepares
    rw [committers_ballot] at commits
    exact ⟨early, late, rfl, prepares, commits⟩
  · rintro ⟨before, after, rfl, prepares, commits⟩
    rw [← preparers_ballot fun vote listed => valid vote (mem_append_left _ listed)] at prepares
    rw [← committers_ballot] at commits
    exact ⟨_, _, map_append, prepares, commits⟩

omit coherent recorded in
theorem voters_filter (phase : PbftPhase) :
    voters phase (votes.filter fun vote => vote.phase = phase) = voters phase votes := by
  rw [voters, voters, List.filter_filter]
  simp

omit coherent recorded in
theorem voters_filter_ne {other} (different : other ≠ phase) :
    voters phase (votes.filter fun vote => vote.phase = other) = ∅ := by
  refine eq_empty_of_forall_notMem fun id member => ?_
  obtain ⟨vote, listed, here, -⟩ := mem_voters.mp member
  exact different ((of_decide_eq_true (List.mem_filter.mp listed).2).symm.trans here)

omit coherent recorded in
theorem mem_split (valid : ∀ vote ∈ votes, vote.Valid sphincs engine height) (vote : PbftVote) :
    (vote ∈ votes.filter fun vote => vote.phase = .prepare) ∨ (vote ∈ votes.filter fun vote => vote.phase = .commit) ↔
      vote ∈ votes := by
  rw [List.mem_filter, List.mem_filter, ← and_or_left, and_iff_left_iff_imp]
  intro listed
  have cast := (valid vote listed).cast
  cases phase : vote.phase with
  | prePrepare => exact absurd phase cast
  | prepare => exact .inl (decide_eq_true rfl)
  | commit => exact .inr (decide_eq_true rfl)

omit coherent recorded in
theorem voters_congr (same : ∀ vote, vote ∈ arrival ↔ vote ∈ votes) (phase : PbftPhase) :
    voters phase arrival = voters phase votes := by
  ext id
  simp only [mem_voters, same]

theorem deliver_settled {first second} (valid : ∀ vote ∈ votes, vote.Valid sphincs replica.node.engine height)
    (settled : replica.node.engine.blockState height ≠ some .proposed ∨
      (replica.node.engine.votes .prepare height ∪ voters .prepare votes).card < replica.node.engine.quorumSize ∨
      (replica.node.ownCommits sphincs height hash ∪ voters .commit votes).card < replica.node.engine.quorumSize ∨
      replica.node.engine.quorumSize ≤ (replica.node.ownCommits sphincs height hash).card)
    (left : ∀ vote, vote ∈ first ↔ vote ∈ votes) (right : ∀ vote, vote ∈ second ↔ vote ∈ votes) :
    (deliver sphincs toVec height hash replica first).node.engine.blockState height =
      (deliver sphincs toVec height hash replica second).node.engine.blockState height := by
  have validLeft : ∀ vote ∈ first, vote.Valid sphincs replica.node.engine height :=
    fun vote listed => valid vote ((left vote).mp listed)
  have validRight : ∀ vote ∈ second, vote.Valid sphincs replica.node.engine height :=
    fun vote listed => valid vote ((right vote).mp listed)
  have same : ∀ ballot, ballot ∈ first.map PbftVote.ballot ↔ ballot ∈ second.map PbftVote.ballot := by
    simp [left, right]
  cases state : replica.node.engine.finalizedBlocks.lookup height with
  | none =>
    rw [node_deliver_unknown recorded state validLeft, node_deliver_unknown recorded state validRight]
  | some current =>
    cases current with
    | proposed =>
      obtain ⟨few, none⟩ := coherent.proposed state
      have settled := settled.resolve_left (not_not.mpr state)
      rw [state_deliver coherent recorded .proposed state validLeft,
        state_deliver coherent recorded .proposed state validRight,
        run_stage_settled rfl none few (by rwa [preparers_ballot validLeft, committers_ballot, voters_congr left,
          voters_congr left]),
        run_stage_settled rfl none few (by rwa [preparers_ballot validRight, committers_ballot,
          voters_congr right, voters_congr right]),
        preparers_ballot validLeft, preparers_ballot validRight, voters_congr left, voters_congr right]
    | prepared =>
      rw [state_deliver coherent recorded .prepared state validLeft,
        state_deliver coherent recorded .prepared state validRight]
      have few := (coherent.prepared state).2
      rw [run_prepared rfl few, run_prepared rfl few, gathered_congr same]
    | committed =>
      rw [state_deliver coherent recorded .committed state validLeft,
        state_deliver coherent recorded .committed state validRight, run_committed rfl, run_committed rfl]

omit coherent recorded in
/-- The order of arrival is without effect exactly when the height is past the
prepare phase, or one of the quorums is missing, or the node's own commit is
one; and in each order it is committed exactly when the commits that arrive
after the prepare quorum are a quorum with the node's own. -/
theorem delivery_order_free_iff (reached : Reached sha3 sphincs toVec id replica)
    (recorded : replica.node.engine.blockHashes.lookup height = some hash)
    (valid : ∀ vote ∈ votes, vote.Valid sphincs replica.node.engine height) :
    ((∀ first second : List PbftVote, (∀ vote, vote ∈ first ↔ vote ∈ votes) → (∀ vote, vote ∈ second ↔ vote ∈ votes) →
        (LivePbftFinality.deliver sphincs toVec height hash replica first).node.engine.blockState height =
          (LivePbftFinality.deliver sphincs toVec height hash replica second).node.engine.blockState height) ↔
      replica.node.engine.blockState height ≠ some .proposed ∨
      (replica.node.engine.votes .prepare height ∪ voters .prepare votes).card < replica.node.engine.quorumSize ∨
      (replica.node.ownCommits sphincs height hash ∪ voters .commit votes).card < replica.node.engine.quorumSize ∨
      replica.node.engine.quorumSize ≤ (replica.node.ownCommits sphincs height hash).card) ∧
    (replica.node.engine.blockState height = some .proposed → ∀ arrival : List PbftVote,
      (∀ vote, vote ∈ arrival ↔ vote ∈ votes) →
        ((LivePbftFinality.deliver sphincs toVec height hash replica arrival).node.engine.blockState height =
            some .committed ↔
          ∃ before after, arrival = before ++ after ∧
            replica.node.engine.quorumSize ≤ (replica.node.engine.votes .prepare height ∪ voters .prepare before).card ∧
            replica.node.engine.quorumSize ≤
              (replica.node.ownCommits sphincs height hash ∪ voters .commit after).card)) := by
  obtain ⟨log, coherent⟩ := reached.coherent
  refine ⟨⟨fun free => ?_, fun settled first second => deliver_settled coherent recorded valid settled⟩,
    fun proposed arrival same => deliver_committed_iff coherent recorded proposed
      fun vote listed => valid vote ((same vote).mp listed)⟩
  by_contra unsettled
  simp only [not_or, not_not, Nat.not_lt] at unsettled
  obtain ⟨proposed, prepares, commits, waits⟩ := unsettled
  obtain ⟨few, none⟩ := coherent.proposed proposed
  -- All the prepares before all the commits commits the block; the other way
  -- round the commits are lost.
  have split vote := mem_append.trans (mem_split valid vote)
  have swapped vote := mem_append.trans (or_comm.trans (mem_split valid vote))
  have same := free _ _ split swapped
  rw [(deliver_committed_iff coherent recorded proposed fun vote listed => valid vote ((split vote).mp listed)).mpr
      ⟨_, _, rfl, by rwa [voters_filter], by rwa [voters_filter]⟩,
    state_deliver coherent recorded .proposed proposed fun vote listed => valid vote ((swapped vote).mp listed),
    map_append] at same
  refine TwoPhase.run_commits_first rfl none few ?_ ?_ waits (PbftBlockState.ofStage_injective (Option.some.inj same).symm)
  · rw [preparers_ballot fun vote listed => valid vote ((mem_split valid vote).mp (.inr listed))]
    exact voters_filter_ne (by decide)
  · rw [committers_ballot]
    exact voters_filter_ne (by decide)

end Orders

def peerKey : Bytes := List.replicate sphincsPkLen 1
def duoCommittee : List (String × Bytes) := [("peer", peerKey), ("solo", soloKey)]
def duoKeys : HashTable.HashMap String Bytes := AList.insert "solo" soloKey (AList.insert "peer" peerKey ∅)
def duoNode : LivePbftFinality := { soloNode with engine := .fromValidatorKeys duoKeys.keys.toFinset duoKeys }

theorem duoNode_new : new sizedSphincs "solo" duoCommittee soloSecret soloKey true = .ok duoNode := by
  have soloLength : soloKey.length = sphincsPkLen := length_replicate
  have peerLength : peerKey.length = sphincsPkLen := length_replicate
  have peerAccepted := sizedSphincs_publicKey peerLength
  have registered : registerKeys sizedSphincs ∅ duoCommittee = .ok duoKeys := rfl
  have engine : newWithValidatorKeys sizedSphincs "solo" duoCommittee = .ok duoNode.engine := by
    simp only [newWithValidatorKeys, registered]
    rfl
  have found : duoCommittee.find? (fun entry => entry.1 = "solo") = some ("solo", soloKey) := rfl
  simp only [new, found, soloSecret_accepted, soloKey_accepted, engine]
  rfl

/-- The node once it has proposed `soloBlock` and prepared it. -/
def duoProposed : LivePbftFinality := { duoNode with
  localPrepareSent := insert 1 ∅
  engine := (duoNode.engine.admitProposal 1 (soloBlock.computeHash zeroSha3)).countPrepare 1 "solo" }

theorem duoNode_proposes :
    ((propose zeroSha3 sizedSphincs (fun _ => .ok []) .stored soloBlock).run
      ⟨duoNode, [], []⟩).1.node = duoProposed := by
  have run := @run_propose_soloBlock duoKeys.keys.toFinset duoKeys (by decide) (AList.lookup_insert _)
    (find?_cons_of_pos (decide_eq_true rfl))
  have start : (⟨duoNode, [], []⟩ : Replica) =
      ⟨{ soloNode with engine := .fromValidatorKeys duoKeys.keys.toFinset duoKeys }, [], []⟩ := rfl
  rw [start, run, node_startLocalCommit_idle (by decide)]
  rfl

theorem duo_reached : ∃ replica, Reached zeroSha3 sizedSphincs (fun _ => .ok []) "solo" replica ∧
    replica.node = duoProposed := by
  have initially : Reach (NodeCall zeroSha3 sizedSphincs fun _ => .ok []) (fun _ => ⟨duoNode, [], []⟩)
      ⟨fun _ => ⟨duoNode, [], []⟩, []⟩ := .start
  have proposing : NodeCall zeroSha3 sizedSphincs (fun _ => .ok []) (fun _ => ⟨duoNode, [], []⟩) "solo" _ :=
    .propose .stored soloBlock
  have reach := initially.call_run proposing
  refine ⟨_, ⟨duoCommittee, _, _, ⟨⟨soloSecret, soloKey, true, duoNode_new⟩, rfl⟩, reach, ?_⟩, duoNode_proposes⟩
  simp

theorem duoProposed_recorded : duoProposed.engine.blockHashes.lookup 1 = some (soloBlock.computeHash zeroSha3) :=
  AList.lookup_insert _

theorem duoProposed_own : duoProposed.ownCommits sizedSphincs 1 (soloBlock.computeHash zeroSha3) = {"solo"} := by
  have key : duoProposed.engine.validatorPubkeys.lookup "solo" = some soloKey := rfl
  exact if_pos ⟨notMem_empty _, soloSecret_accepted, by decide,
    verifyVote_sized key length_replicate duoProposed_recorded⟩

def peerVote (phase : PbftPhase) : PbftVote := ⟨phase, "peer", List.replicate sphincsSigLen 0⟩

theorem peerVote_valid (cast : phase ≠ .prePrepare) :
    (peerVote phase).Valid sizedSphincs duoProposed.engine 1 := by
  have key : duoProposed.engine.validatorPubkeys.lookup "peer" = some peerKey := rfl
  have known : "peer" ∈ duoProposed.engine.knownValidators := by decide
  exact ⟨cast, known, verifyVote_sized key length_replicate duoProposed_recorded⟩

theorem duoProposed_stage {arrival replica}
    (reached : Reached zeroSha3 sizedSphincs (fun _ => .ok []) "solo" replica) (proposed : replica.node = duoProposed)
    (valid : ∀ vote ∈ arrival, vote.Valid sizedSphincs duoProposed.engine 1) :
    (deliver sizedSphincs (fun _ => .ok []) 1 (soloBlock.computeHash zeroSha3) replica
      arrival).node.engine.blockState 1 =
      some (.ofStage (run 2 {"solo"} ⟨.proposed, {"solo"}, ∅⟩ (arrival.map ballot)).stage) := by
  obtain ⟨log, coherent⟩ := reached.coherent
  obtain ⟨node, signed, sent⟩ := replica
  cases proposed
  have proposed : duoProposed.engine.finalizedBlocks.lookup 1 = some .proposed := by decide
  have state := @state_deliver sizedSphincs 1 (fun _ => .ok []) (soloBlock.computeHash zeroSha3)
    ⟨duoProposed, signed, sent⟩ log arrival coherent duoProposed_recorded .proposed proposed valid
  rw [duoProposed_own] at state
  exact state

/-- The peer's prepare alone leaves the block prepared, however often it
arrives. -/
theorem peer_prepare_order_free :
    ∃ replica, Reached zeroSha3 sizedSphincs (fun _ => .ok []) "solo" replica ∧
      replica.node.engine.blockState 1 = some .proposed ∧
      ∀ first second, (∀ vote, vote ∈ first ↔ vote ∈ [peerVote .prepare]) →
        (∀ vote, vote ∈ second ↔ vote ∈ [peerVote .prepare]) →
          (LivePbftFinality.deliver sizedSphincs (fun _ => .ok []) 1 (soloBlock.computeHash zeroSha3) replica
            first).node.engine.blockState 1 =
          (LivePbftFinality.deliver sizedSphincs (fun _ => .ok []) 1 (soloBlock.computeHash zeroSha3) replica
            second).node.engine.blockState 1 := by
  obtain ⟨⟨node, signed, sent⟩, reached, proposed⟩ := duo_reached
  cases proposed
  have valid : ∀ vote ∈ [peerVote .prepare], vote.Valid sizedSphincs duoProposed.engine 1 := by
    intro vote listed
    rw [List.mem_singleton.mp listed]
    exact peerVote_valid (by decide)
  have state : duoProposed.engine.blockState 1 = some .proposed := by decide
  have few : (duoProposed.ownCommits sizedSphincs 1 (soloBlock.computeHash zeroSha3) ∪
      voters .commit [peerVote .prepare]).card < duoProposed.engine.quorumSize := by
    rw [duoProposed_own]
    decide
  exact ⟨⟨duoProposed, signed, sent⟩, reached, state,
    (delivery_order_free_iff reached duoProposed_recorded valid).1.mpr (.inr (.inr (.inl few)))⟩

/-- With two members: the peer's commit that arrives before its prepare is
lost, and the block stays prepared. -/
theorem peer_commit_first_lost :
    ∃ replica, Reached zeroSha3 sizedSphincs (fun _ => .ok []) "solo" replica ∧
      replica.node.engine.blockHashes.lookup 1 = some (soloBlock.computeHash zeroSha3) ∧
      (∀ vote ∈ [peerVote .prepare, peerVote .commit], vote.Valid sizedSphincs replica.node.engine 1) ∧
      replica.node.engine.quorumSize ≤
        (replica.node.engine.votes .prepare 1 ∪ voters .prepare [peerVote .prepare, peerVote .commit]).card ∧
      replica.node.engine.quorumSize ≤
        (replica.node.ownCommits sizedSphincs 1 (soloBlock.computeHash zeroSha3) ∪
          voters .commit [peerVote .prepare, peerVote .commit]).card ∧
      (LivePbftFinality.deliver sizedSphincs (fun _ => .ok []) 1 (soloBlock.computeHash zeroSha3) replica
        [peerVote .prepare, peerVote .commit]).node.engine.blockState 1 = some .committed ∧
      (LivePbftFinality.deliver sizedSphincs (fun _ => .ok []) 1 (soloBlock.computeHash zeroSha3) replica
        [peerVote .commit, peerVote .prepare]).node.engine.blockState 1 = some .prepared := by
  obtain ⟨replica, reached, proposed⟩ := duo_reached
  have valid : ∀ vote ∈ [peerVote .prepare, peerVote .commit], vote.Valid sizedSphincs duoProposed.engine 1 := by
    intro vote listed
    simp only [List.mem_cons, List.not_mem_nil, or_false] at listed
    rcases listed with rfl | rfl
    · exact peerVote_valid (by decide)
    · exact peerVote_valid (by decide)
  have valid' : ∀ vote ∈ [peerVote .commit, peerVote .prepare], vote.Valid sizedSphincs duoProposed.engine 1 :=
    fun vote listed => valid vote (mem_pair.mpr (mem_pair.mp listed).symm)
  refine ⟨replica, reached, ?_, ?_, ?_, ?_, ?_, ?_⟩
  · rw [proposed]
    exact duoProposed_recorded
  · rw [proposed]
    exact valid
  · rw [proposed]
    decide
  · rw [proposed, duoProposed_own]
    decide
  · exact duoProposed_stage reached proposed valid
  · exact duoProposed_stage reached proposed valid'

end Bleep
