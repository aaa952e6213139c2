import Bleep.Pbft.Network

namespace Bleep

open HashTable (HashMap IterOrder)
open List AList
open Resumption (Prog)

variable {id : String}

section Agreement

variable {sha3 : Bytes → Hash32} {sphincs : Sphincs} {toVec : PbftMessage → Except String Bytes}
  {committee : List (String × Bytes)} {honest : Finset String} {initial : Network}
  {system : Resumption.System String Replica String Unit}

theorem Launched.sound {replica} (launched : Launched sphincs committee id replica)
    (net : Network) : Sound committee honest net id replica := by
  obtain ⟨⟨secretKey, publicKey, p2p, built⟩, silent⟩ := launched
  obtain ⟨name, initialized⟩ := LivePbftFinality.new_ok built
  obtain ⟨-, serves, known, keys, engine⟩ := PbftConsensusEngine.newWithValidatorKeys_ok initialized
  refine ⟨name, serves, ?_, ?_⟩
  · rw [engine]
    exact PbftConsensusEngine.backed_fromValidatorKeys known keys
  · rw [silent]
    simp

theorem Sound.finalized_certified {net} (sound : Sound committee honest net id (net id))
    {height hash} (finalized : (net id).node.isFinalized height hash = true) :
    Quorum.Certified (committee.map Prod.fst).toFinset ((committee.map Prod.fst).toFinset \ honest)
      (Voted net .commit height) hash := by
  obtain ⟨committed, recorded⟩ := Bool.and_eq_true_iff.mp finalized
  obtain ⟨-, hash', lookup, certified⟩ := sound.backed.committed (of_decide_eq_true committed)
  rw [of_decide_eq_true recorded] at lookup
  cases lookup
  rwa [sound.serves.known] at certified

/-- With distinct ids, the Byzantine members of the list are counted as a set. -/
theorem card_faulty {honest} (nodup : (committee.map Prod.fst).Nodup) :
    ((committee.map Prod.fst).toFinset \ honest).card =
      (committee.filter fun member => member.1 ∉ honest).length := by
  have filtered : (committee.map Prod.fst).toFinset \ honest =
      ((committee.filter fun member => member.1 ∉ honest).map Prod.fst).toFinset := by
    ext id
    simp only [Finset.mem_sdiff, List.mem_toFinset, List.mem_map, List.mem_filter, decide_eq_true_eq]
    constructor
    · rintro ⟨⟨member, listed, rfl⟩, faulty⟩
      exact ⟨member, ⟨listed, faulty⟩, rfl⟩
    · rintro ⟨member, ⟨listed, faulty⟩, rfl⟩
      exact ⟨⟨member, listed, rfl⟩, faulty⟩
  have distinct : ((committee.filter fun member => member.1 ∉ honest).map Prod.fst).Nodup :=
    nodup.sublist (filter_sublist.map Prod.fst)
  rw [filtered, toFinset_card_of_nodup distinct, length_map]

end Agreement

section Agreement

variable {sha3 : Bytes → Hash32} {sphincs : Sphincs} {toVec : PbftMessage → Except String Bytes}
  {committee : List (String × Bytes)} {honest : Finset String} {initial : Network}
  {system : Resumption.System String Replica String Unit}

end Agreement

def soloKey : Bytes := List.replicate sphincsPkLen 0
def soloSecret : Bytes := List.replicate (2 * sphincsPkLen) 0
def soloCommittee : List (String × Bytes) := [("solo", soloKey)]

theorem soloKey_accepted : sizedSphincs.publicKey soloKey = .ok () := sizedSphincs_publicKey List.length_replicate

theorem soloSecret_accepted : sizedSphincs.secretKey soloSecret = .ok () := by
  have length : soloSecret.length = 2 * sphincsPkLen := length_replicate
  simp [sizedSphincs, length]

def soloNode : LivePbftFinality where
  localValidatorId := "solo"
  localSecretKey := soloSecret
  localPublicKey := soloKey
  p2p := true
  engine := .fromValidatorKeys {"solo"} (AList.insert "solo" soloKey ∅)
  localPrepareSent := ∅
  localCommitSent := ∅

theorem registerKeys_soloKey (named : id ≠ "") :
    PbftConsensusEngine.registerKeys sizedSphincs ∅ [(id, soloKey)] = .ok (AList.insert id soloKey ∅) := by
  have length : soloKey.length = sphincsPkLen := length_replicate
  simp [PbftConsensusEngine.registerKeys, soloKey_accepted, length, named]

theorem soloNode_new :
    LivePbftFinality.new sizedSphincs "solo" soloCommittee soloSecret soloKey true = .ok soloNode := by
  have registered : PbftConsensusEngine.registerKeys sizedSphincs ∅ soloCommittee =
      .ok (insert "solo" soloKey ∅) := registerKeys_soloKey (by decide)
  have engine : PbftConsensusEngine.newWithValidatorKeys sizedSphincs "solo" soloCommittee = .ok soloNode.engine := rfl
  simp only [LivePbftFinality.new, soloCommittee, find?_cons_of_pos, decide_true, soloSecret_accepted,
    soloKey_accepted] at engine ⊢
  simp only [engine]
  rfl

theorem verifyVote_sized {engine : PbftConsensusEngine} {phase height id hash} {key : Bytes}
    (registered : engine.validatorPubkeys.lookup id = some key) (size : key.length = sphincsPkLen)
    (recorded : engine.blockHashes.lookup height = some hash) :
    engine.verifyVote sizedSphincs phase height id (List.replicate sphincsSigLen 0) = .ok () := by
  have parses := sizedSphincs_detachedSignature (length_replicate (n := sphincsSigLen) (a := (0 : UInt8))).le
  simp only [PbftConsensusEngine.verifyVote, registered, length_replicate, ne_eq, not_true_eq_false, if_false,
    recorded, sizedSphincs_publicKey size, parses]
  rfl

def zeroSha3 : Bytes → Hash32 := fun _ => Vector.replicate 32 0

def soloBlock : Block :=
  { Block.withConsensusAndSharding zeroSha3 0 1 [] "parent" 0 .pbftFastFinality 5 "" 0 "" with
    validatorSignature := soloKey ++ List.replicate sphincsSigLen 0 }

theorem soloBlock_length : soloBlock.validatorSignature.length = sphincsPkLen + sphincsSigLen := by
  simp [soloBlock, soloKey, length_replicate]

theorem soloBlock_signer : soloBlock.validatorSignature.take sphincsPkLen = soloKey :=
  take_left' length_replicate

theorem soloBlock_verified {engine : PbftConsensusEngine}
    (listed : (IterOrder.stored.iter 0 engine.validatorPubkeys).find? (fun entry => entry.2 = soloKey) =
      some ("solo", soloKey)) :
    engine.verifyRegisteredBlockSignature sizedSphincs zeroSha3 .stored soloBlock = .ok () := by
  have rest : soloBlock.validatorSignature.drop sphincsPkLen = replicate sphincsSigLen 0 :=
    drop_left' length_replicate
  have parses : sizedSphincs.detachedSignature (soloBlock.validatorSignature.drop sphincsPkLen) = .ok () := by
    exact sizedSphincs_detachedSignature length_replicate.le
  simp only [PbftConsensusEngine.verifyRegisteredBlockSignature, soloBlock_length, soloBlock_signer, listed,
    Block.verifySignature_of_parses soloBlock_length soloBlock_signer soloKey_accepted parses, ne_eq, not_true_eq_false,
    if_false]
  rfl

section Proposed
open LivePbftFinality PbftConsensusEngine

theorem lookup_soloBlock {V : Type} (value : V) :
    (AList.singleton soloBlock.index value : HashMap U64 V).lookup soloBlock.index = some value :=
  dlookup_cons_eq _ _ _

/-- In every committee the member prepares the block it proposes. -/
theorem run_propose_soloBlock {known} {keys : HashMap String Bytes} (member : "solo" ∈ known)
    (key : keys.lookup "solo" = some soloKey)
    (listed : (IterOrder.stored.iter 0 keys).find? (fun entry => entry.2 = soloKey) = some ("solo", soloKey)) :
    ((propose zeroSha3 sizedSphincs (fun _ => .ok []) .stored soloBlock).run
      ⟨{ soloNode with engine := .fromValidatorKeys known keys }, [], []⟩).1 =
    ((startLocalCommitIfPrepared sizedSphincs (fun _ => .ok []) soloBlock.index).run
      ⟨{ soloNode with
          localPrepareSent := {soloBlock.index}
          engine := ((fromValidatorKeys known keys).admitProposal soloBlock.index
            (soloBlock.computeHash zeroSha3)).countPrepare soloBlock.index "solo" },
        [pbftVoteMessage .prepare soloBlock.index (soloBlock.computeHash zeroSha3) "solo"], [[], []]⟩).1 := by
  have long : ¬soloBlock.validatorSignature.length < sphincsPkLen := by
    rw [soloBlock_length]
    omega
  have registered := @soloBlock_verified (.fromValidatorKeys known keys) listed
  have verified := @verifyVote_sized
    ((fromValidatorKeys known keys).admitProposal soloBlock.index (soloBlock.computeHash zeroSha3)) .prepare
    soloBlock.index "solo" _ _ key length_replicate (lookup_insert _)
  have signature message secret : sizedSphincs.detachedSign message secret = replicate sphincsSigLen 0 := rfl
  simp [propose, checkProposer, startProposal, broadcast, sendLocalVote, claimPrepare, castVote, signLocalVote,
    lockEngine, submitVote, Prog.run_bind, Prog.critical, Prog.run, soloNode, long, soloBlock_signer, prePrepare,
    registered, admitProposal, fromValidatorKeys, soloSecret_accepted, processPrepare, countPrepare, signature, member,
    lookup_soloBlock, insert_singleton_eq] at verified registered ⊢
  simp only [verified]
  rfl

def soloNet : Network := fun _ => ⟨soloNode, [], []⟩

theorem soloNet_launched : Launched sizedSphincs soloCommittee "solo" (soloNet "solo") :=
  ⟨⟨soloSecret, soloKey, true, soloNode_new⟩, rfl⟩

theorem soloNet_finalizes :
    ((LivePbftFinality.propose zeroSha3 sizedSphincs (fun _ => .ok []) .stored soloBlock).run
      (soloNet "solo")).1.node.isFinalized 1 (soloBlock.computeHash zeroSha3) = true := by
  let counted := ((fromValidatorKeys {"solo"} (insert "solo" soloKey ∅)).admitProposal soloBlock.index
    (soloBlock.computeHash zeroSha3)).countPrepare soloBlock.index "solo"
  have run := @run_propose_soloBlock {"solo"} (insert "solo" soloKey ∅) (by decide) (lookup_insert _)
    (find?_cons_of_pos (decide_eq_true rfl))
  have verified := @verifyVote_sized counted .commit soloBlock.index "solo" _ _ (lookup_insert _)
    length_replicate (lookup_insert _)
  have signature message secret : sizedSphincs.detachedSign message secret = replicate sphincsSigLen 0 := rfl
  have index : 1 = soloBlock.index := rfl
  have start : soloNet "solo" =
      ⟨{ soloNode with engine := .fromValidatorKeys {"solo"} (insert "solo" soloKey ∅) }, [], []⟩ := rfl
  rw [index, start, run]
  simp [startLocalCommitIfPrepared, claimCommit, castVote, signLocalVote, lockEngine, submitVote, broadcast, soloNode,
    Prog.run_bind, Prog.critical, Prog.run, admitProposal, fromValidatorKeys, soloSecret_accepted, countPrepare,
    lookup_soloBlock, insert_singleton_eq, counted, signature, blockState, processCommit] at verified ⊢
  simp [verified, Prog.run, countCommit, LivePbftFinality.isFinalized, PbftConsensusEngine.isFinalized, lookup_soloBlock,
    insert_singleton_eq]

end Proposed

end Bleep
