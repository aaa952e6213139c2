import Bleep.Pbft.Committee
import Bleep.Pbft.Agreement

namespace Bleep

open HashTable (HashMap IterOrder)
open Bool
open PbftConsensusEngine LivePbftFinality
open PbftConsensusEngine (EngineStep)
open Relation (ReflTransGen)
open Resumption (Prog Reach Step System)

section
variable (sha3 : Bytes → Hash32) (sphincs : Sphincs)

/-- Every call there is on a node, with any arguments: in particular the
committee may be replaced by any list at any time. -/
inductive NodeCall (toVec : PbftMessage → Except String Bytes) (net : Network) : String → Live Unit → Prop
  | propose {id : String} (σ : IterOrder) (block : Block) :
    NodeCall toVec net id (LivePbftFinality.propose sha3 sphincs toVec σ block)
  | receiveProposal {id : String} (σ : IterOrder) (block : Block) :
    NodeCall toVec net id (LivePbftFinality.receiveProposal sha3 sphincs toVec σ block)
  | receiveVote {id : String} (phase : PbftPhase) (height : U64) (blockHash validatorId : String) (signature : Bytes) :
    NodeCall toVec net id (LivePbftFinality.receiveVote sphincs toVec phase height blockHash validatorId signature)
  | syncCommittee {id : String} (validatorKeys : List (String × Bytes)) :
    NodeCall toVec net id (LivePbftFinality.syncCommittee sphincs validatorKeys)

/-- What one action of a call can do to its node. A vote is signed only for
the hash that is recorded at its height. -/
structure Moved (old new : Replica) : Prop where
  name : new.node.localValidatorId = old.node.localValidatorId
  engine : new.node.engine = old.node.engine ∨ ∃ counted, EngineStep sha3 sphincs old.node.engine counted new.node.engine
  signed : new.signed = old.signed ∨ ∃ phase height hash, old.node.engine.blockHashes.lookup height = some hash ∧
    new.signed = old.signed ++ [pbftVoteMessage phase height hash old.node.localValidatorId]

end

section Actions

variable {sha3 : Bytes → Hash32} {sphincs : Sphincs} {toVec : PbftMessage → Except String Bytes}

theorem Moved.refl (replica : Replica) : Moved sha3 sphincs replica replica := ⟨rfl, .inl rfl, .inl rfl⟩

namespace LivePbftFinality

theorem moved_of_quiet {α : Type} {prog : Live α} (quiet : prog.Each Quiet) : prog.Each (Moved sha3 sphincs) :=
  quiet.mono fun _ _ kept => ⟨kept.name, .inl kept.engine, .inl kept.signed⟩

theorem moved_lockEngine {α : Type} {body : PbftConsensusEngine → Except String (PbftConsensusEngine × α)}
    (ends : ∀ engine next value, body engine = .ok (next, value) →
      next = engine ∨ ∃ counted, EngineStep sha3 sphincs engine counted next) :
    (lockEngine body).Each (Moved sha3 sphincs) := by
  refine Prog.Each.critical Moved.refl fun replica new value ran => ?_
  split at ran
  · cases ran
  rename_i engine result outcome
  cases ran
  exact ⟨rfl, ends _ _ _ outcome, .inl rfl⟩

theorem step_of_submitVote {engine next phase height id misplaced signature value}
    (ran : submitVote sphincs phase height id signature misplaced engine = .ok (next, value)) :
    next = engine ∨ ∃ counted, EngineStep sha3 sphincs engine counted next := by
  cases phase with
  | prePrepare => cases ran
  | prepare =>
    simp only [submitVote] at ran
    split at ran
    · cases ran
    rename_i processed
    cases ran
    rcases processPrepare_ok processed with same | ⟨proposed, known, verified, rfl⟩
    · exact .inl same
    · obtain ⟨key, -, registered, -⟩ := verifyVote_ok verified
      exact .inr ⟨_, .prepare proposed known registered verified⟩
  | commit =>
    simp only [submitVote] at ran
    split at ran
    · cases ran
    rename_i processed
    cases ran
    rcases processCommit_ok processed with same | ⟨prepared, known, verified, rfl⟩
    · exact .inl same
    · obtain ⟨key, -, registered, -⟩ := verifyVote_ok verified
      exact .inr ⟨_, .commit prepared known registered verified⟩

theorem moved_startProposal (σ : IterOrder) (block : Block) :
    (startProposal sha3 sphincs σ block).Each (Moved sha3 sphincs) := by
  refine moved_lockEngine fun engine next value ran => ?_
  split at ran
  · split at ran
    · cases ran
    cases ran
    exact .inl rfl
  rename_i unrecorded
  split at ran
  · cases ran
  rename_i admitted
  cases ran
  exact .inr ⟨[], .propose σ block unrecorded admitted⟩

variable (phase : PbftPhase)

variable (height : U64)

theorem moved_signLocalVote :
    (signLocalVote sphincs phase height).Each (Moved sha3 sphincs) := by
  refine Prog.Each.critical Moved.refl fun replica new vote ran => ?_
  split at ran
  · cases ran
  rename_i hash recorded
  split at ran
  · cases ran
  cases ran
  exact ⟨rfl, .inl rfl, .inr ⟨phase, height, hash, recorded, rfl⟩⟩

theorem moved_castVote :
    (castVote sphincs toVec phase height).Each (Moved sha3 sphincs) := by
  refine (moved_signLocalVote phase height).bind fun vote => ?_
  refine Prog.Each.bind (moved_lockEngine fun _ _ _ ran => step_of_submitVote ran) fun _ => ?_
  exact moved_of_quiet (quiet_broadcast _)

theorem moved_startLocalCommitIfPrepared :
    (startLocalCommitIfPrepared sphincs toVec height).Each (Moved sha3 sphincs) := by
  have looked : (lockEngine fun engine => .ok (engine, engine.blockState height)).Each (Moved sha3 sphincs) := by
    refine moved_lockEngine fun engine next value ran => ?_
    cases ran
    exact .inl rfl
  refine looked.bind fun state => ?_
  split
  · trivial
  refine (moved_of_quiet (quiet_claimCommit height)).bind fun first => ?_
  split
  · exact moved_castVote .commit height
  · trivial

theorem moved_sendLocalVote :
    (sendLocalVote sphincs toVec phase height).Each (Moved sha3 sphincs) := by
  unfold sendLocalVote
  split
  · refine (moved_of_quiet (quiet_claimPrepare height)).bind fun first => ?_
    split
    · exact (moved_castVote phase height).bind fun _ => moved_startLocalCommitIfPrepared height
    · trivial
  · exact moved_castVote phase height

theorem moved_syncCommittee (validatorKeys : List (String × Bytes)) :
    (syncCommittee sphincs validatorKeys).Each (Moved sha3 sphincs) := by
  refine Prog.Each.bind (moved_lockEngine fun engine next value ran => ?_) fun _ =>
    moved_of_quiet (Prog.Each.bind ?_ fun _ => ?_)
  · split at ran
    · cases ran
    rename_i replaced
    cases ran
    exact .inr ⟨[], .committee validatorKeys replaced⟩
  -- the guards are no part of what is moved
  all_goals
    refine quiet_critical fun replica new value ran => ?_
    cases ran
    exact ⟨rfl, rfl, rfl⟩

theorem moved_call {net : Network} {id : String} {prog : Live Unit} (called : NodeCall sha3 sphincs toVec net id prog) :
    prog.Each (Moved sha3 sphincs) := by
  cases called with
  | propose σ block =>
    refine (moved_of_quiet (quiet_checkProposer block)).bind fun _ => ?_
    refine (moved_startProposal σ block).bind fun _ => ?_
    refine (moved_of_quiet (quiet_broadcast _)).bind fun _ => ?_
    exact moved_sendLocalVote .prepare block.index
  | receiveProposal σ block =>
    refine (moved_startProposal σ block).bind fun isNew => ?_
    split
    · exact moved_sendLocalVote .prepare block.index
    · trivial
  | receiveVote phase height blockHash validatorId signature =>
    refine Prog.Each.bind (moved_lockEngine fun engine next value ran => ?_) fun _ => ?_
    · split at ran
      · cases ran
      exact step_of_submitVote ran
    · split
      · exact moved_startLocalCommitIfPrepared height
      · trivial
  | syncCommittee validatorKeys => exact moved_syncCommittee validatorKeys

end LivePbftFinality

end Actions

section Runs

variable {sha3 : Bytes → Hash32} {sphincs : Sphincs} {toVec : PbftMessage → Except String Bytes}
  {committee : List (String × Bytes)} {initial : Network} {system next later : System String Replica String Unit}
  {id : String} {height : U64} {hash : String} {old new : Replica}

theorem moved_of_step (reach : Reach (NodeCall sha3 sphincs toVec) initial system)
    (taken : Step (NodeCall sha3 sphincs toVec) system next) (id : String) :
    Moved sha3 sphincs (system.shared id) (next.shared id) := by
  have calls : ∀ shared place prog, NodeCall sha3 sphincs toVec shared place prog → prog.Each (Moved sha3 sphincs) :=
    fun _ _ _ called => moved_call called
  exact (taken.moves Moved.refl calls (reach.each Moved.refl calls)).2 id

theorem Moved.keeps_hash (moved : Moved sha3 sphincs old new)
    (recorded : old.node.engine.blockHashes.lookup height = some hash) :
    new.node.engine.blockHashes.lookup height = some hash := by
  rcases moved.engine with same | ⟨counted, step⟩
  · rwa [same]
  · exact step.keeps_hash recorded

theorem Moved.keeps_finalized (moved : Moved sha3 sphincs old new)
    (finalized : old.node.isFinalized height hash = true) : new.node.isFinalized height hash = true := by
  obtain ⟨committed, recorded⟩ := and_eq_true_iff.mp finalized
  refine and_eq_true_iff.mpr ⟨?_, decide_eq_true (moved.keeps_hash (of_decide_eq_true recorded))⟩
  rcases moved.engine with same | ⟨counted, step⟩
  · rwa [same]
  · exact decide_eq_true (step.keeps_committed (of_decide_eq_true committed))

theorem SignsRecorded.moved (signs : SignsRecorded id old) (moved : Moved sha3 sphincs old new) :
    SignsRecorded id new := by
  refine ⟨moved.name.trans signs.name, fun message signed => ?_⟩
  have before : message ∈ old.signed → ∃ phase height hash, message = pbftVoteMessage phase height hash id ∧
      new.node.engine.blockHashes.lookup height = some hash := by
    intro old
    obtain ⟨phase, height, hash, form, recorded⟩ := signs.recorded message old
    exact ⟨phase, height, hash, form, moved.keeps_hash recorded⟩
  rcases moved.signed with same | ⟨phase, height, hash, recorded, added⟩
  · exact before (same ▸ signed)
  rw [added] at signed
  rcases List.mem_append.mp signed with earlier | fresh
  · exact before earlier
  · rw [List.mem_singleton.mp fresh, signs.name]
    exact ⟨phase, height, hash, rfl, moved.keeps_hash recorded⟩

theorem reach_signsRecorded (launched : Launched sphincs committee id (initial id))
    (reach : Reach (NodeCall sha3 sphincs toVec) initial system) : SignsRecorded id (system.shared id) := by
  induction reach with
  | start =>
    obtain ⟨⟨_, _, _, built⟩, silent⟩ := launched
    exact ⟨(new_ok built).1, by simp [silent]⟩
  | step before taken ih => exact ih.moved (moved_of_step before taken id)

/-- A finalized block stays the one finalized at its height, and the node signs
votes for one hash at a height only, through all changes of the committee. -/
theorem finality_irrevocable (launched : Launched sphincs committee id (initial id))
    (reach : Reach (NodeCall sha3 sphincs toVec) initial system) :
    (∀ later, ReflTransGen (Step (NodeCall sha3 sphincs toVec)) system later → ∀ height x,
      (system.shared id).node.isFinalized height x = true → (later.shared id).node.isFinalized height x = true ∧
        ∀ y, y ≠ x → (later.shared id).node.isFinalized height y = false) ∧
    ∀ phase phase' height x y, Voted system.shared phase height id x → Voted system.shared phase' height id y →
      x = y := by
  refine ⟨fun later taken height x finalized => ?_, fun phase phase' height x y first second => ?_⟩
  · have still : (later.shared id).node.isFinalized height x = true := by
      induction taken with
      | refl => exact finalized
      | tail before step ih => exact (moved_of_step (reach.steps before) step id).keeps_finalized ih
    refine ⟨still, fun y different => eq_false_iff.mpr fun both => different ?_⟩
    have recorded := of_decide_eq_true (and_eq_true_iff.mp still).2
    have recorded' := of_decide_eq_true (and_eq_true_iff.mp both).2
    exact Option.some.inj (recorded'.symm.trans recorded)
  · exact (reach_signsRecorded launched reach).votes_once first second

/-- A run with the votes the node at `id` has counted on the way. -/
inductive Audited (sha3 : Bytes → Hash32) (sphincs : Sphincs) (toVec : PbftMessage → Except String Bytes)
    (initial : Network) (id : String) : List CountedVote → System String Replica String Unit → Prop
  | start : Audited sha3 sphincs toVec initial id [] ⟨initial, []⟩
  | still {log system next} : Audited sha3 sphincs toVec initial id log system →
      Step (NodeCall sha3 sphincs toVec) system next →
      (next.shared id).node.engine = (system.shared id).node.engine → Audited sha3 sphincs toVec initial id log next
  | counts {log counted system next} : Audited sha3 sphincs toVec initial id log system →
      Step (NodeCall sha3 sphincs toVec) system next →
      EngineStep sha3 sphincs (system.shared id).node.engine counted (next.shared id).node.engine →
      Audited sha3 sphincs toVec initial id (log ++ counted) next

variable {log : List CountedVote}

/-- Each step is audited, by the change it makes to the engine if any. -/
theorem Audited.step (audited : Audited sha3 sphincs toVec initial id log system)
    (reach : Reach (NodeCall sha3 sphincs toVec) initial system)
    (taken : Step (NodeCall sha3 sphincs toVec) system next) :
    ∃ counted, Audited sha3 sphincs toVec initial id (log ++ counted) next ∧
      ((next.shared id).node.engine = (system.shared id).node.engine ∨
        EngineStep sha3 sphincs (system.shared id).node.engine counted (next.shared id).node.engine) := by
  rcases (moved_of_step reach taken id).engine with same | ⟨counted, step⟩
  · exact ⟨[], (List.append_nil log).symm ▸ audited.still taken same, .inl same⟩
  · exact ⟨counted, audited.counts taken step, .inr step⟩

theorem reach_audited (reach : Reach (NodeCall sha3 sphincs toVec) initial system) (id : String) :
    ∃ log, Audited sha3 sphincs toVec initial id log system := by
  induction reach with
  | start => exact ⟨[], .start⟩
  | step before taken ih =>
    obtain ⟨log, audited⟩ := ih
    obtain ⟨counted, further, -⟩ := audited.step before taken
    exact ⟨log ++ counted, further⟩

theorem Audited.coherent (launched : Launched sphincs committee id (initial id))
    (audited : Audited sha3 sphincs toVec initial id log system) :
    (system.shared id).node.engine.Coherent log := by
  induction audited with
  | start =>
    obtain ⟨⟨_, _, _, built⟩, -⟩ := launched
    obtain ⟨-, -, known, keys, engine⟩ :=
      newWithValidatorKeys_ok (new_ok built).2
    rw [engine]
    exact coherent_fromValidatorKeys known keys
  | still _ _ same ih =>
    rw [same]
    exact ih
  | counts _ _ step ih => exact ih.step step

/-- Counts and states stay coherent through all changes of the committee, and a
height is committed only with both quorums of the committee of that moment. -/
theorem votes_coherent (launched : Launched sphincs committee id (initial id))
    (reach : Reach (NodeCall sha3 sphincs toVec) initial system) :
    (∃ log, Audited sha3 sphincs toVec initial id log system) ∧
    ∀ log, Audited sha3 sphincs toVec initial id log system → (system.shared id).node.engine.Coherent log ∧
      ∀ next, Step (NodeCall sha3 sphincs toVec) system next →
        ∃ counted, Audited sha3 sphincs toVec initial id (log ++ counted) next ∧
          ∀ height, (system.shared id).node.engine.blockState height ≠ some .committed →
            (next.shared id).node.engine.blockState height = some .committed →
              PbftConsensusEngine.Certifies log (system.shared id).node.engine counted (next.shared id).node.engine
                height := by
  refine ⟨reach_audited reach id, fun log audited => ⟨audited.coherent launched, fun next taken => ?_⟩⟩
  obtain ⟨counted, further, same | step⟩ := audited.step reach taken
  · refine ⟨counted, further, fun height before after => absurd ?_ before⟩
    rwa [← same]
  · exact ⟨counted, further, fun height => (audited.coherent launched).enters_committed step⟩

end Runs

section Rotated

theorem soloNet_rotates :
    ∃ system later, Reach (NodeCall zeroSha3 sizedSphincs fun _ => .ok []) soloNet system ∧
      ReflTransGen (Step (NodeCall zeroSha3 sizedSphincs fun _ => .ok [])) system later ∧
      (system.shared "solo").node.isFinalized 1 (soloBlock.computeHash zeroSha3) = true ∧
      (later.shared "solo").node.engine.knownValidators = {"other"} := by
  have initially : Reach (NodeCall zeroSha3 sizedSphincs fun _ => .ok []) soloNet ⟨soloNet, []⟩ := .start
  have proposing : NodeCall zeroSha3 sizedSphincs (fun _ => .ok []) soloNet "solo" _ := .propose .stored soloBlock
  have reach := initially.call_run proposing
  have syncing (net : Network) : NodeCall zeroSha3 sizedSphincs (fun _ => .ok []) net "solo" _ :=
    .syncCommittee [("other", soloKey)]
  refine ⟨_, _, reach, Resumption.steps_call_run (syncing _), ?_, ?_⟩
  · simp only [Function.update_self]
    exact soloNet_finalizes
  · rfl

/-- The finalized block outlasts the committee that finalized it. -/
theorem soloBlock_stays_finalized :
    ∃ system later, Reach (NodeCall zeroSha3 sizedSphincs fun _ => .ok []) soloNet system ∧
      ReflTransGen (Step (NodeCall zeroSha3 sizedSphincs fun _ => .ok [])) system later ∧
      (later.shared "solo").node.engine.knownValidators = {"other"} ∧
      (later.shared "solo").node.isFinalized 1 (soloBlock.computeHash zeroSha3) = true ∧
      ∀ y, y ≠ soloBlock.computeHash zeroSha3 → (later.shared "solo").node.isFinalized 1 y = false := by
  obtain ⟨system, later, reach, taken, finalized, known⟩ := soloNet_rotates
  exact ⟨system, later, reach, taken, known, (finality_irrevocable soloNet_launched reach).1 later taken 1 _ finalized⟩

/-- After the committee was replaced, counts and states are still coherent. -/
theorem soloNet_rotates_coherent :
    ∃ system log, Reach (NodeCall zeroSha3 sizedSphincs fun _ => .ok []) soloNet system ∧
      (system.shared "solo").node.engine.knownValidators = {"other"} ∧
      Audited zeroSha3 sizedSphincs (fun _ => .ok []) soloNet "solo" log system ∧
      (system.shared "solo").node.engine.Coherent log := by
  obtain ⟨_, later, reach, taken, -, known⟩ := soloNet_rotates
  obtain ⟨⟨log, audited⟩, coherent⟩ := votes_coherent soloNet_launched (reach.steps taken)
  exact ⟨later, log, reach.steps taken, known, audited, (coherent log audited).1⟩

end Rotated

end Bleep
