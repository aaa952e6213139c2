import Bleep.Pbft.Votes

namespace Bleep

open HashTable (HashMap IterOrder)
open List AList Option Finset
open HashTable

/-- A vote that was counted, with the key its signature verified under. -/
structure CountedVote where
  phase : PbftPhase
  height : U64
  id : String
  key : Bytes

variable (log : List CountedVote)

/-- The key of the last vote of this kind that was counted. -/
def verifiedWith (phase : PbftPhase) (height : U64) (id : String) : Option Bytes :=
  log.foldl (fun found vote => if vote.phase = phase ∧ vote.height = height ∧ vote.id = id then some vote.key else found)
    none

theorem verifiedWith_append (vote : CountedVote) (phase : PbftPhase) (height : U64)
    (id : String) :
    verifiedWith (log ++ [vote]) phase height id =
      if vote.phase = phase ∧ vote.height = height ∧ vote.id = id then some vote.key
      else verifiedWith log phase height id := by
  rw [verifiedWith, foldl_append]
  rfl

namespace PbftConsensusEngine

/-- What the node does to its engine, one change at a time, with the votes
that are counted. -/
inductive EngineStep (sha3 : Bytes → Hash32) (sphincs : Sphincs) :
    PbftConsensusEngine → List CountedVote → PbftConsensusEngine → Prop
  | propose {engine next : PbftConsensusEngine} (σ : IterOrder) (block : Block)
      (unrecorded : engine.blockHashes.lookup block.index = none)
      (admitted : engine.prePrepare sphincs sha3 σ block.index block = .ok next) : EngineStep sha3 sphincs engine [] next
  | prepare {engine : PbftConsensusEngine} {height : U64} {id : String} {signature key : Bytes}
      (proposed : engine.finalizedBlocks.lookup height = some .proposed) (known : id ∈ engine.knownValidators)
      (registered : engine.validatorPubkeys.lookup id = some key)
      (verified : engine.verifyVote sphincs .prepare height id signature = .ok ()) :
      EngineStep sha3 sphincs engine [⟨.prepare, height, id, key⟩] (engine.countPrepare height id)
  | commit {engine : PbftConsensusEngine} {height : U64} {id : String} {signature key : Bytes}
      (prepared : engine.finalizedBlocks.lookup height = some .prepared) (known : id ∈ engine.knownValidators)
      (registered : engine.validatorPubkeys.lookup id = some key)
      (verified : engine.verifyVote sphincs .commit height id signature = .ok ()) :
      EngineStep sha3 sphincs engine [⟨.commit, height, id, key⟩] (engine.countCommit height id)
  | committee {engine next : PbftConsensusEngine} (validatorKeys : List (String × Bytes))
      (replaced : engine.setCommittee sphincs validatorKeys = .ok next) : EngineStep sha3 sphincs engine [] next

section Outcomes
variable {sphincs : Sphincs} {engine next : PbftConsensusEngine} {height : U64} {id : String} {signature : Bytes}

theorem prePrepare_fresh {sha3 σ block}
    (admitted : engine.prePrepare sphincs sha3 σ height block = .ok next) :
    engine.finalizedBlocks.lookup height = none := by
  unfold prePrepare at admitted
  split at admitted
  · cases admitted
  split at admitted
  · cases admitted
  split at admitted
  · cases admitted
  rename_i fresh
  exact not_isSome_iff_eq_none.mp fresh

theorem setCommittee_ok {validatorKeys} (replaced : engine.setCommittee sphincs validatorKeys = .ok next) :
    ∃ publicKeys, next = engine.replaceCommittee publicKeys := by
  unfold setCommittee at replaced
  split at replaced
  · cases replaced
  split at replaced
  · cases replaced
  exact ⟨_, (Except.ok.inj replaced).symm⟩

end Outcomes

section Replaced
variable {engine : PbftConsensusEngine} {publicKeys : HashMap String Bytes} {height : U64} {phase : PbftPhase}

/-- The votes at a height that the change of the committee leaves. -/
def pruned (engine : PbftConsensusEngine) (publicKeys : HashMap String Bytes) (phase : PbftPhase) (height : U64) :
    Finset String := engine.votes phase height ∩ engine.retainedVoters publicKeys

theorem any_quorum_mapValues {votes : HashMap U64 (Finset String)} {retained quorum}
    (positive : 0 < quorum) (height : U64) :
    ((mapValues (fun _ votes => votes ∩ retained) votes).lookup height).any
      (fun votes => quorum ≤ votes.card) = decide (quorum ≤ (((votes.lookup height).getD ∅) ∩ retained).card) := by
  rw [lookup_mapValues]
  cases votes.lookup height with
  | none =>
    have none : ¬quorum ≤ ((∅ : Finset String) ∩ retained).card := by
      rw [empty_inter, card_empty]
      omega
    exact (decide_eq_false none).symm
  | some voters => rfl

/-- The outcome of the loop at a height, in terms of the votes left there. -/
def outcome (engine : PbftConsensusEngine) (publicKeys : HashMap String Bytes) (height : U64)
    (state : PbftBlockState) : PbftBlockState × Reclassified :=
  let quorumSize := publicKeys.keys.toFinset.card * 2 / 3 + 1
  reclassify quorumSize
    ((HashTable.mapValues (fun _ votes => votes ∩ engine.retainedVoters publicKeys) engine.prepareVotes).lookup height)
    ((HashTable.mapValues (fun _ votes => votes ∩ engine.retainedVoters publicKeys) engine.commitVotes).lookup height)
    state

/-- The turns of the loop, by what the votes left at the height amount to. -/
inductive Turn (prepares commits : Prop) : PbftBlockState → PbftBlockState × Reclassified → Prop
  | final : Turn prepares commits .committed (.committed, .unchanged)
  | waits (few : ¬prepares) : Turn prepares commits .proposed (.proposed, .unchanged)
  | rollsBack (few : ¬prepares) : Turn prepares commits .prepared (.proposed, .rollbackPrepared)
  | prepares {state : PbftBlockState} (enough : prepares) (few : ¬commits) (pending : state ≠ .committed) :
      Turn prepares commits state (.prepared, .unchanged)
  | commits {state : PbftBlockState} (prepared : prepares) (enough : commits) (pending : state ≠ .committed) :
      Turn prepares commits state (.committed, .newlyCommitted)

theorem reclassify_turn (quorumSize : Nat) (prepareVotes commitVotes : Option (Finset String))
    (state : PbftBlockState) :
    Turn (prepareVotes.any (fun votes => quorumSize ≤ votes.card) = true)
      (commitVotes.any (fun votes => quorumSize ≤ votes.card) = true) state
      (reclassify quorumSize prepareVotes commitVotes state) := by
  unfold reclassify
  generalize prepareVotes.any (fun votes => quorumSize ≤ votes.card) = prepares
  generalize commitVotes.any (fun votes => quorumSize ≤ votes.card) = commits
  cases state with
  | committed => exact .final
  | proposed =>
    cases prepares with
    | false => exact .waits Bool.false_ne_true
    | true =>
      cases commits with
      | false => exact .prepares rfl Bool.false_ne_true (by decide)
      | true => exact .commits rfl rfl (by decide)
  | prepared =>
    cases prepares with
    | false => exact .rollsBack Bool.false_ne_true
    | true =>
      cases commits with
      | false => exact .prepares rfl Bool.false_ne_true (by decide)
      | true => exact .commits rfl rfl (by decide)

theorem outcome_turn (engine : PbftConsensusEngine) (publicKeys : HashMap String Bytes) (height : U64)
    (state : PbftBlockState) :
    Turn ((engine.replaceCommittee publicKeys).quorumSize ≤ (engine.pruned publicKeys .prepare height).card)
      ((engine.replaceCommittee publicKeys).quorumSize ≤ (engine.pruned publicKeys .commit height).card) state
      (engine.outcome publicKeys height state) := by
  have turn := reclassify_turn (publicKeys.keys.toFinset.card * 2 / 3 + 1)
    ((mapValues (fun _ votes => votes ∩ engine.retainedVoters publicKeys) engine.prepareVotes).lookup height)
    ((mapValues (fun _ votes => votes ∩ engine.retainedVoters publicKeys) engine.commitVotes).lookup height)
    state
  rw [any_quorum_mapValues (Nat.succ_pos _), any_quorum_mapValues (Nat.succ_pos _), decide_eq_true_eq,
    decide_eq_true_eq] at turn
  exact turn

theorem finalizedBlocks_replaceCommittee (height : U64) :
    (engine.replaceCommittee publicKeys).finalizedBlocks.lookup height =
      (engine.finalizedBlocks.lookup height).map fun state => (engine.outcome publicKeys height state).1 :=
  lookup_mapValues _ _ _

theorem turn_of_replaced {after}
    (reached : (engine.replaceCommittee publicKeys).finalizedBlocks.lookup height = some after) :
    ∃ state noted, engine.finalizedBlocks.lookup height = some state ∧
      engine.outcome publicKeys height state = (after, noted) ∧
      Turn ((engine.replaceCommittee publicKeys).quorumSize ≤ (engine.pruned publicKeys .prepare height).card)
        ((engine.replaceCommittee publicKeys).quorumSize ≤ (engine.pruned publicKeys .commit height).card) state
        (after, noted) := by
  rw [finalizedBlocks_replaceCommittee] at reached
  obtain ⟨state, found, rfl⟩ := map_eq_some_iff.mp reached
  exact ⟨state, _, found, rfl, outcome_turn engine publicKeys height state⟩

theorem mem_noted {noted} :
    height ∈ ((pairs engine.finalizedBlocks).filter fun entry =>
        (engine.outcome publicKeys entry.1 entry.2).2 = noted).map Prod.fst ↔
      ∃ state, engine.finalizedBlocks.lookup height = some state ∧
        (engine.outcome publicKeys height state).2 = noted := by
  rw [List.mem_map]
  constructor
  · rintro ⟨⟨other, state⟩, listed, rfl⟩
    obtain ⟨listed, same⟩ := mem_filter.mp listed
    exact ⟨state, mem_pairs.mp listed, of_decide_eq_true same⟩
  · rintro ⟨state, found, same⟩
    exact ⟨(height, state), mem_filter.mpr ⟨mem_pairs.mpr found, decide_eq_true same⟩, rfl⟩

theorem getD_mapValues_inter (votes : HashMap U64 (Finset String)) (retained : Finset String) (height : U64) :
    ((mapValues (fun _ votes => votes ∩ retained) votes).lookup height).getD ∅ =
      ((votes.lookup height).getD ∅) ∩ retained := by
  rw [lookup_mapValues]
  cases votes.lookup height with
  | none => exact (empty_inter retained).symm
  | some voters => rfl

/-- The votes after the change: none at a block just committed, no commit
votes at one rolled back, and else those of the members with the same key. -/
theorem prepareVotes_replaceCommittee :
    (engine.replaceCommittee publicKeys).votes .prepare height =
      if ∃ state, engine.finalizedBlocks.lookup height = some state ∧
          (engine.outcome publicKeys height state).2 = .newlyCommitted then ∅
      else engine.pruned publicKeys .prepare height := by
  change ((eraseAll _ (((pairs engine.finalizedBlocks).filter fun entry =>
    (engine.outcome publicKeys entry.1 entry.2).2 = .newlyCommitted).map Prod.fst)).lookup height).getD ∅ = _
  rw [lookup_eraseAll]
  simp only [mem_noted]
  split
  · rfl
  · exact getD_mapValues_inter _ _ _

theorem commitVotes_replaceCommittee :
    (engine.replaceCommittee publicKeys).votes .commit height =
      if ∃ state, engine.finalizedBlocks.lookup height = some state ∧
          (engine.outcome publicKeys height state).2 ≠ .unchanged then ∅
      else engine.pruned publicKeys .commit height := by
  change ((eraseAll (eraseAll _ (((pairs engine.finalizedBlocks).filter fun entry =>
    (engine.outcome publicKeys entry.1 entry.2).2 = .newlyCommitted).map Prod.fst))
    (((pairs engine.finalizedBlocks).filter fun entry =>
      (engine.outcome publicKeys entry.1 entry.2).2 = .rollbackPrepared).map Prod.fst)).lookup height).getD ∅ = _
  rw [lookup_eraseAll, lookup_eraseAll]
  simp only [mem_noted]
  cases found : engine.finalizedBlocks.lookup height with
  | none =>
    exact getD_mapValues_inter _ _ _
  | some state =>
    simp only [some.injEq, exists_eq_left']
    cases (engine.outcome publicKeys height state).2 with
    | unchanged =>
      exact getD_mapValues_inter _ _ _
    | newlyCommitted => simp
    | rollbackPrepared => simp

theorem votes_replaceCommittee_subset :
    (engine.replaceCommittee publicKeys).votes phase height ⊆ engine.pruned publicKeys phase height := by
  cases phase with
  | prePrepare => exact empty_subset _
  | prepare =>
    rw [prepareVotes_replaceCommittee]
    split
    · exact empty_subset _
    · exact Finset.Subset.refl _
  | commit =>
    rw [commitVotes_replaceCommittee]
    split
    · exact empty_subset _
    · exact Finset.Subset.refl _

end Replaced

section Coherence

/-- The voter is a member, and its vote was verified with the key it has now. -/
def Authentic (engine : PbftConsensusEngine) (phase : PbftPhase) (height : U64)
    (id : String) : Prop :=
  id ∈ engine.knownValidators ∧
    ∃ key, engine.validatorPubkeys.lookup id = some key ∧ verifiedWith log phase height id = some key

/-- What the counts and the states say about each other. -/
structure Coherent (log : List CountedVote) (engine : PbftConsensusEngine) : Prop where
  total : engine.totalValidators = engine.knownValidators.card
  quorum : engine.quorumSize = engine.totalValidators * 2 / 3 + 1
  voters : ∀ {phase height id}, id ∈ engine.votes phase height → engine.Authentic log phase height id
  unknown : ∀ {height}, engine.finalizedBlocks.lookup height = none → ∀ phase, engine.votes phase height = ∅
  proposed : ∀ {height}, engine.finalizedBlocks.lookup height = some .proposed →
    (engine.votes .prepare height).card < engine.quorumSize ∧ engine.votes .commit height = ∅
  prepared : ∀ {height}, engine.finalizedBlocks.lookup height = some .prepared →
    engine.quorumSize ≤ (engine.votes .prepare height).card ∧ (engine.votes .commit height).card < engine.quorumSize

variable {sha3 : Bytes → Hash32} {sphincs : Sphincs} {log counted : List CountedVote}
  {engine next : PbftConsensusEngine} {height : U64} {id hash : String} {key : Bytes}

theorem coherent_fromValidatorKeys (known : Finset String) (keys : HashMap String Bytes) :
    (fromValidatorKeys known keys).Coherent [] where
  total := rfl
  quorum := rfl
  voters {phase _ _} counted := by cases phase <;> simp [votes, fromValidatorKeys] at counted
  unknown _ phase := by cases phase <;> rfl
  proposed reached := by simp [fromValidatorKeys] at reached
  prepared reached := by simp [fromValidatorKeys] at reached

theorem Coherent.quorum_pos (coherent : engine.Coherent log) : 0 < engine.quorumSize := by
  rw [coherent.quorum]
  exact Nat.succ_pos _

/-- What a coherent engine keeps at one height. -/
structure CoherentAt (height : U64) (engine : PbftConsensusEngine) : Prop where
  unknown : engine.finalizedBlocks.lookup height = none → ∀ phase, engine.votes phase height = ∅
  proposed : engine.finalizedBlocks.lookup height = some .proposed →
    (engine.votes .prepare height).card < engine.quorumSize ∧ engine.votes .commit height = ∅
  prepared : engine.finalizedBlocks.lookup height = some .prepared →
    engine.quorumSize ≤ (engine.votes .prepare height).card ∧ (engine.votes .commit height).card < engine.quorumSize

theorem CoherentAt.of_proposed (state : engine.finalizedBlocks.lookup height = some .proposed)
    (few : (engine.votes .prepare height).card < engine.quorumSize) (uncommitted : engine.votes .commit height = ∅) :
    engine.CoherentAt height where
  unknown reached := by cases state.symm.trans reached
  proposed _ := ⟨few, uncommitted⟩
  prepared reached := by cases state.symm.trans reached

theorem CoherentAt.of_prepared (state : engine.finalizedBlocks.lookup height = some .prepared)
    (enough : engine.quorumSize ≤ (engine.votes .prepare height).card)
    (few : (engine.votes .commit height).card < engine.quorumSize) : engine.CoherentAt height where
  unknown reached := by cases state.symm.trans reached
  proposed reached := by cases state.symm.trans reached
  prepared _ := ⟨enough, few⟩

theorem CoherentAt.of_committed (state : engine.finalizedBlocks.lookup height = some .committed) :
    engine.CoherentAt height where
  unknown reached := by cases state.symm.trans reached
  proposed reached := by cases state.symm.trans reached
  prepared reached := by cases state.symm.trans reached

/-- A change at one height keeps an engine coherent if it does so at that
height. -/
theorem Coherent.of_frame {log'} (coherent : engine.Coherent log) (target : U64)
    (total : next.totalValidators = engine.totalValidators) (quorum : next.quorumSize = engine.quorumSize)
    (members : next.knownValidators = engine.knownValidators)
    (voters : ∀ {phase height id}, id ∈ next.votes phase height → next.Authentic log' phase height id)
    (frame : ∀ {height}, height ≠ target → next.finalizedBlocks.lookup height = engine.finalizedBlocks.lookup height ∧
      ∀ phase, next.votes phase height = engine.votes phase height)
    (here : next.CoherentAt target) : next.Coherent log' := by
  have kept (height : U64) : next.CoherentAt height := by
    by_cases same : height = target
    · rwa [same]
    obtain ⟨lookup, votes⟩ := frame same
    constructor
    · intro none phase
      rw [votes]
      exact coherent.unknown (lookup ▸ none) phase
    · intro reached
      rw [votes, votes, quorum]
      exact coherent.proposed (lookup ▸ reached)
    · intro reached
      rw [votes, votes, quorum]
      exact coherent.prepared (lookup ▸ reached)
  exact ⟨by rw [total, members, coherent.total], by rw [quorum, total, coherent.quorum], voters,
    (kept _).unknown, (kept _).proposed, (kept _).prepared⟩

theorem Coherent.admitProposal (coherent : engine.Coherent log)
    (fresh : engine.finalizedBlocks.lookup height = none) : (engine.admitProposal height hash).Coherent log := by
  refine coherent.of_frame height rfl rfl rfl (fun voted => coherent.voters (votes_admitProposal ▸ voted)) ?_ ?_
  · exact fun other => ⟨lookup_insert_ne other, fun _ => votes_admitProposal⟩
  refine .of_proposed (lookup_insert _) ?_ ?_
  · rw [votes_admitProposal, coherent.unknown fresh .prepare]
    exact coherent.quorum_pos
  · rw [votes_admitProposal, coherent.unknown fresh .commit]

section Counting
variable {target : U64} {voter : String} {phase : PbftPhase}

theorem Authentic.append {vote} (authentic : engine.Authentic log phase height voter)
    (registered : engine.validatorPubkeys.lookup vote.id = some vote.key) :
    engine.Authentic (log ++ [vote]) phase height voter := by
  obtain ⟨known, key, current, verified⟩ := authentic
  refine ⟨known, key, current, ?_⟩
  rw [verifiedWith_append]
  split
  · rename_i same
    rw [← current, ← same.2.2, registered]
  · exact verified

theorem Authentic.own (known : id ∈ engine.knownValidators)
    (registered : engine.validatorPubkeys.lookup id = some key) :
    engine.Authentic (log ++ [⟨phase, height, id, key⟩]) phase height id := by
  refine ⟨known, key, registered, ?_⟩
  rw [verifiedWith_append]
  exact if_pos ⟨rfl, rfl, rfl⟩

theorem Coherent.countPrepare (coherent : engine.Coherent log)
    (state : engine.finalizedBlocks.lookup target = some .proposed) (known : id ∈ engine.knownValidators)
    (registered : engine.validatorPubkeys.lookup id = some key) :
    (engine.countPrepare target id).Coherent (log ++ [⟨.prepare, target, id, key⟩]) := by
  have lookup := @lookup_countPrepare engine target target id
  have prepares : (engine.countPrepare target id).votes .prepare target = insert id (engine.votes .prepare target) := by
    rw [votes_countPrepare, if_pos ⟨rfl, rfl⟩]
  have uncommitted : (engine.countPrepare target id).votes .commit target = ∅ := (coherent.proposed state).2
  refine coherent.of_frame target rfl rfl rfl ?_ ?_ ?_
  · intro phase height voter voted
    rcases mem_votes_countPrepare voted with before | ⟨rfl, rfl, rfl⟩
    · exact (coherent.voters before).append registered
    · exact Authentic.own known registered
  · intro height other
    refine ⟨?_, fun phase => ?_⟩
    · rw [lookup_countPrepare, if_neg fun both => other both.1]
    · rw [votes_countPrepare, if_neg fun both => other both.2]
  · by_cases enough : engine.quorumSize ≤ (insert id (engine.votes .prepare target)).card
    · rw [if_pos ⟨rfl, enough⟩] at lookup
      refine .of_prepared lookup (prepares ▸ enough) ?_
      rw [uncommitted]
      exact coherent.quorum_pos
    · rw [if_neg fun both => enough both.2, state] at lookup
      exact .of_proposed lookup (prepares ▸ Nat.lt_of_not_le enough) uncommitted

variable (coherent : engine.Coherent log)
include coherent

theorem Coherent.countCommit (state : engine.finalizedBlocks.lookup target = some .prepared)
    (known : id ∈ engine.knownValidators) (registered : engine.validatorPubkeys.lookup id = some key) :
    (engine.countCommit target id).Coherent (log ++ [⟨.commit, target, id, key⟩]) := by
  obtain ⟨quorum, members, keys, -⟩ := sameRecords_countCommit engine target id
  have lookup := @lookup_countCommit engine target target id
  have total : (engine.countCommit target id).totalValidators = engine.totalValidators := by
    simp only [PbftConsensusEngine.countCommit]
    split <;> rfl
  refine coherent.of_frame target total quorum members ?_ ?_ ?_
  · intro phase height voter voted
    rw [Authentic, members, keys]
    rcases mem_votes_countCommit voted with before | ⟨rfl, rfl, rfl⟩
    · exact (coherent.voters before).append registered
    · exact Authentic.own known registered
  · intro height other
    refine ⟨?_, fun phase => ?_⟩
    · rw [lookup_countCommit, if_neg fun both => other both.1]
    · rw [votes_countCommit, if_neg fun both => other both.1, if_neg fun both => other both.2]
  · by_cases enough : engine.quorumSize ≤ (insert id (engine.votes .commit target)).card
    · rw [if_pos ⟨rfl, enough⟩] at lookup
      exact .of_committed lookup
    · rw [if_neg fun both => enough both.2, state] at lookup
      refine .of_prepared lookup ?_ ?_
      · rw [quorum, votes_countCommit, if_neg fun both => enough both.2, if_neg fun both => by cases both.1]
        exact (coherent.prepared state).1
      · rw [quorum, votes_countCommit, if_neg fun both => enough both.2, if_pos ⟨rfl, rfl⟩]
        exact Nat.lt_of_not_le enough

theorem Coherent.authentic_pruned {publicKeys} (kept : id ∈ engine.pruned publicKeys phase height) :
    (engine.replaceCommittee publicKeys).Authentic log phase height id ∧ id ∈ engine.votes phase height := by
  obtain ⟨before, retained⟩ := mem_inter.mp kept
  obtain ⟨-, key, current, verified⟩ := coherent.voters before
  obtain ⟨known, same⟩ := Finset.mem_filter.mp retained
  exact ⟨⟨known, key, same.symm.trans current, verified⟩, before⟩

/-- The change of the committee brings counts and states together again. -/
theorem Coherent.replaceCommittee (publicKeys : HashMap String Bytes) :
    (engine.replaceCommittee publicKeys).Coherent log := by
  have few {phase : PbftPhase} {height : U64}
      (less : ¬(engine.replaceCommittee publicKeys).quorumSize ≤ (engine.pruned publicKeys phase height).card) :
      ((engine.replaceCommittee publicKeys).votes phase height).card <
        (engine.replaceCommittee publicKeys).quorumSize :=
    Nat.lt_of_le_of_lt (Finset.card_le_card votes_replaceCommittee_subset) (Nat.lt_of_not_le less)
  refine ⟨rfl, rfl, ?_, ?_, ?_, ?_⟩
  · intro phase height voter voted
    exact (coherent.authentic_pruned (votes_replaceCommittee_subset voted)).1
  · intro height none phase
    rw [finalizedBlocks_replaceCommittee, map_eq_none_iff] at none
    refine subset_empty.mp (votes_replaceCommittee_subset.trans ?_)
    rw [pruned, coherent.unknown none phase, empty_inter]
  · intro height reached
    obtain ⟨state, noted, found, same, turn⟩ := turn_of_replaced reached
    cases turn with
    | waits less =>
      refine ⟨few less, subset_empty.mp (votes_replaceCommittee_subset.trans ?_)⟩
      rw [pruned, (coherent.proposed found).2, empty_inter]
    | rollsBack less =>
      refine ⟨few less, ?_⟩
      rw [commitVotes_replaceCommittee, if_pos ⟨_, found, by rw [same]; decide⟩]
  · intro height reached
    obtain ⟨state, noted, found, same, turn⟩ := turn_of_replaced reached
    cases turn with
    | prepares enough less =>
      refine ⟨?_, few less⟩
      rw [prepareVotes_replaceCommittee, if_neg]
      · exact enough
      rintro ⟨other, found', noted⟩
      rw [found] at found'
      cases found'
      rw [same] at noted
      cases noted

end Counting

/-- Every change keeps counts and states together. -/
theorem Coherent.step (coherent : engine.Coherent log) (step : EngineStep sha3 sphincs engine counted next) :
    next.Coherent (log ++ counted) := by
  cases step with
  | propose σ block _ admitted =>
    rw [append_nil, prePrepare_ok admitted]
    exact coherent.admitProposal (prePrepare_fresh admitted)
  | prepare proposed known registered _ => exact coherent.countPrepare proposed known registered
  | commit prepared known registered _ => exact coherent.countCommit prepared known registered
  | committee validatorKeys replaced =>
    obtain ⟨publicKeys, rfl⟩ := setCommittee_ok replaced
    rw [append_nil]
    exact coherent.replaceCommittee publicKeys

/-- At the change from `engine` to `next` there are quorums of both phases at
the height: of votes that stood there or are just counted, and from members of
the committee of `next` with the keys they voted with. -/
def Certifies (log : List CountedVote) (engine : PbftConsensusEngine) (counted : List CountedVote)
    (next : PbftConsensusEngine) (height : U64) : Prop :=
  ∀ phase, phase ≠ .prePrepare → ∃ voters : Finset String, next.quorumSize ≤ voters.card ∧
    ∀ id ∈ voters, next.Authentic (log ++ counted) phase height id ∧
      (id ∈ engine.votes phase height ∨ ∃ key, ⟨phase, height, id, key⟩ ∈ counted)

theorem Coherent.certifies_countCommit (coherent : engine.Coherent log)
    (prepared : engine.finalizedBlocks.lookup height = some .prepared) (known : id ∈ engine.knownValidators)
    (registered : engine.validatorPubkeys.lookup id = some key)
    (enough : engine.quorumSize ≤ (insert id (engine.votes .commit height)).card) :
    Certifies log engine [⟨.commit, height, id, key⟩] (engine.countCommit height id) height := by
  obtain ⟨quorum, members, keys, -⟩ := sameRecords_countCommit engine height id
  have still {phase : PbftPhase} {voter : String} (voted : voter ∈ engine.votes phase height) :
      (engine.countCommit height id).Authentic (log ++ [⟨.commit, height, id, key⟩]) phase height voter := by
    rw [Authentic, members, keys]
    exact (coherent.voters voted).append registered
  intro phase cast
  cases phase with
  | prePrepare => exact absurd rfl cast
  | prepare =>
    refine ⟨engine.votes .prepare height, ?_, fun voter voted => ⟨still voted, .inl voted⟩⟩
    rw [quorum]
    exact (coherent.prepared prepared).1
  | commit =>
    refine ⟨insert id (engine.votes .commit height), ?_, fun voter voted => ?_⟩
    · rw [quorum]
      exact enough
    · rcases mem_insert.mp voted with rfl | before
      · refine ⟨?_, .inr ⟨key, List.mem_singleton_self _⟩⟩
        rw [Authentic, members, keys]
        exact Authentic.own known registered
      · exact ⟨still before, .inl before⟩

variable (step : EngineStep sha3 sphincs engine counted next)
include step

/-- A block becomes committed only with both quorums of the committee at that
moment. -/
theorem Coherent.enters_committed (coherent : engine.Coherent log)
    (before : engine.finalizedBlocks.lookup height ≠ some .committed)
    (after : next.finalizedBlocks.lookup height = some .committed) : Certifies log engine counted next height := by
  cases step with
  | propose σ block _ admitted =>
    rw [prePrepare_ok admitted] at after
    by_cases here : height = block.index
    · subst here
      cases (lookup_insert _).symm.trans after
    · exact absurd ((lookup_insert_ne here).symm.trans after) before
  | prepare _ _ _ _ =>
    rcases finalizedBlocks_countPrepare after with old | ⟨-, state, -⟩
    · exact absurd old before
    · cases state
  | commit prepared known registered _ =>
    rcases finalizedBlocks_countCommit after with old | ⟨rfl, -, enough⟩
    · exact absurd old before
    · exact coherent.certifies_countCommit prepared known registered enough
  | committee validatorKeys replaced =>
    obtain ⟨publicKeys, rfl⟩ := setCommittee_ok replaced
    obtain ⟨state, noted, found, -, turn⟩ := turn_of_replaced after
    cases turn with
    | final => exact absurd found before
    | commits prepares commits =>
      refine fun phase cast => ⟨engine.pruned publicKeys phase height, ?_, fun id kept => ?_⟩
      · cases phase with
        | prePrepare => exact absurd rfl cast
        | prepare => exact prepares
        | commit => exact commits
      · rw [append_nil]
        obtain ⟨authentic, before⟩ := coherent.authentic_pruned kept
        exact ⟨authentic, .inl before⟩

theorem EngineStep.keeps_hash (recorded : engine.blockHashes.lookup height = some hash)
    : next.blockHashes.lookup height = some hash := by
  cases step with
  | propose σ block unrecorded admitted =>
    rw [prePrepare_ok admitted]
    exact blockHashes_admitProposal unrecorded recorded
  | prepare _ _ _ _ => exact recorded
  | commit _ _ _ _ => rwa [(sameRecords_countCommit engine _ _).blockHashes]
  | committee validatorKeys replaced =>
    obtain ⟨publicKeys, rfl⟩ := setCommittee_ok replaced
    exact recorded

theorem EngineStep.keeps_committed (committed : engine.finalizedBlocks.lookup height = some .committed) :
    next.finalizedBlocks.lookup height = some .committed := by
  cases step with
  | propose σ block _ admitted =>
    have other : height ≠ block.index := by
      rintro rfl
      rw [prePrepare_fresh admitted] at committed
      cases committed
    rw [prePrepare_ok admitted]
    exact (lookup_insert_ne other).trans committed
  | @prepare target _ _ _ proposed _ _ _ =>
    have other : height ≠ target := by
      rintro rfl
      rw [proposed] at committed
      cases committed
    rw [lookup_countPrepare, if_neg fun both => other both.1]
    exact committed
  | @commit target _ _ _ prepared _ _ _ =>
    have other : height ≠ target := by
      rintro rfl
      rw [prepared] at committed
      cases committed
    rw [lookup_countCommit, if_neg fun both => other both.1]
    exact committed
  | committee validatorKeys replaced =>
    obtain ⟨publicKeys, rfl⟩ := setCommittee_ok replaced
    rw [finalizedBlocks_replaceCommittee, committed, map_some]
    rfl

end Coherence

end PbftConsensusEngine

end Bleep
