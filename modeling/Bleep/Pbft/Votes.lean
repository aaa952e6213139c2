import Bleep.Pbft.Engine

namespace Bleep

open HashTable (HashMap IterOrder)
open AList Option Finset

namespace PbftConsensusEngine

section Committee
variable {sphincs : Sphincs} {committee : List (String × Bytes)} {engine : PbftConsensusEngine}
  {publicKeys : HashMap String Bytes}

theorem registerKeys_ok {result} (registered : registerKeys sphincs publicKeys committee = .ok result) :
    (∀ id ∈ committee.map Prod.fst, publicKeys.lookup id = none) ∧ (committee.map Prod.fst).Nodup ∧
      result = HashTable.insertAll publicKeys committee := by
  induction committee generalizing publicKeys with
  | nil => exact ⟨by simp, by simp, (Except.ok.inj registered).symm⟩
  | cons entry rest ih =>
    obtain ⟨id, key⟩ := entry
    unfold registerKeys at registered
    split at registered
    · cases registered
    split at registered
    · cases registered
    split at registered
    · cases registered
    rename_i fresh
    obtain ⟨absent, nodup, rfl⟩ := ih registered
    -- the keys of the rest are absent from the table that already has `id`
    have other : id ∉ rest.map Prod.fst := by
      intro again
      have inserted := absent id again
      rw [lookup_insert] at inserted
      cases inserted
    refine ⟨?_, List.nodup_cons.mpr ⟨other, nodup⟩, rfl⟩
    intro known member
    rcases List.mem_cons.mp member with rfl | later
    · exact not_isSome_iff_eq_none.mp fresh
    · have different : known ≠ id := fun same => other (same ▸ later)
      rw [← absent known later, lookup_insert_ne different]

/-- The engine counts the votes of this committee, under its keys. -/
structure Serves (committee : List (String × Bytes)) (engine : PbftConsensusEngine) : Prop where
  known : engine.knownValidators = (committee.map Prod.fst).toFinset
  quorum : engine.quorumSize = Quorum.threshold engine.knownValidators.card
  key : ∀ id key, engine.validatorPubkeys.lookup id = some key ↔ (id, key) ∈ committee

theorem entries_of_registered (registered : registerKeys sphincs ∅ committee = .ok publicKeys) :
    (committee.map Prod.fst).Nodup ∧ publicKeys.keys.toFinset = (committee.map Prod.fst).toFinset ∧
      ∀ id key, publicKeys.lookup id = some key ↔ (id, key) ∈ committee := by
  obtain ⟨-, nodup, rfl⟩ := registerKeys_ok registered
  have listed (name : String) (key : Bytes) :
      (HashTable.insertAll ∅ committee).lookup name = some key ↔ (name, key) ∈ committee :=
    HashTable.lookup_collect nodup
  refine ⟨nodup, ?_, listed⟩
  ext name
  rw [List.mem_toFinset, List.mem_toFinset, ← mem_keys, ← lookup_isSome, isSome_iff_exists, List.mem_map]
  constructor
  · rintro ⟨key, found⟩
    exact ⟨(name, key), (listed name key).mp found, rfl⟩
  · rintro ⟨⟨other, key⟩, member, rfl⟩
    exact ⟨key, (listed other key).mpr member⟩

theorem newWithValidatorKeys_ok {id} (built : newWithValidatorKeys sphincs id committee = .ok engine) :
    (committee.map Prod.fst).Nodup ∧ engine.Serves committee ∧
      ∃ known keys, engine = fromValidatorKeys known keys := by
  unfold newWithValidatorKeys at built
  split at built
  · cases built
  split at built
  · cases built
  rename_i keys registered
  split at built
  · cases built
  obtain ⟨nodup, known, listed⟩ := entries_of_registered registered
  cases Except.ok.inj built
  exact ⟨nodup, ⟨known, rfl, listed⟩, _, _, rfl⟩

end Committee

def votes (engine : PbftConsensusEngine) : PbftPhase → U64 → Finset String
  | .prePrepare, _ => ∅
  | .prepare, height => (engine.prepareVotes.lookup height).getD ∅
  | .commit, height => (engine.commitVotes.lookup height).getD ∅

section Accumulators
variable {engine : PbftConsensusEngine} {target height : U64} {id voter : String} {phase : PbftPhase}
  {state : PbftBlockState}

theorem votes_admitProposal {hash} :
    (engine.admitProposal target hash).votes phase height = engine.votes phase height := by
  by_cases here : height = target
  · subst here
    cases phase <;> simp [votes, admitProposal]
  · cases phase <;> simp [votes, admitProposal, lookup_insert_ne here]

theorem blockHashes_admitProposal {hash recorded} (fresh : engine.blockHashes.lookup target = none)
    (before : engine.blockHashes.lookup height = some recorded) :
    (engine.admitProposal target hash).blockHashes.lookup height = some recorded := by
  have different : height ≠ target := by
    rintro rfl
    rw [fresh] at before
    cases before
  exact (lookup_insert_ne different).trans before

theorem votes_countPrepare :
    (engine.countPrepare target id).votes phase height =
      if phase = .prepare ∧ height = target then insert id (engine.votes .prepare target)
      else engine.votes phase height := by
  by_cases here : height = target
  · subst here
    cases phase <;> simp [votes, countPrepare]
  · cases phase <;> simp [votes, countPrepare, here, lookup_insert_ne]

theorem lookup_countPrepare :
    (engine.countPrepare target id).finalizedBlocks.lookup height =
      if height = target ∧ engine.quorumSize ≤ (insert id (engine.votes .prepare target)).card then some .prepared
      else engine.finalizedBlocks.lookup height := by
  change (if engine.quorumSize ≤ (insert id (engine.votes .prepare target)).card then _ else _ :
    HashMap U64 PbftBlockState).lookup height = _
  by_cases enough : engine.quorumSize ≤ (insert id (engine.votes .prepare target)).card
  · by_cases here : height = target
    · rw [if_pos enough, if_pos ⟨here, enough⟩, here, lookup_insert]
    · rw [if_pos enough, if_neg fun both => here both.1, lookup_insert_ne here]
  · rw [if_neg enough, if_neg fun both => enough both.2]

theorem countCommit_enough (enough : engine.quorumSize ≤ (insert id (engine.votes .commit target)).card) :
    engine.countCommit target id = { engine with
      finalizedBlocks := engine.finalizedBlocks.insert target .committed
      prepareVotes := engine.prepareVotes.erase target
      commitVotes := engine.commitVotes.erase target } := if_pos enough

theorem countCommit_few (few : ¬engine.quorumSize ≤ (insert id (engine.votes .commit target)).card) :
    engine.countCommit target id = { engine with
      commitVotes := engine.commitVotes.insert target (insert id (engine.votes .commit target)) } := if_neg few

/-- The votes at a height are freed with the commit that completes its quorum. -/
theorem votes_countCommit :
    (engine.countCommit target id).votes phase height =
      if height = target ∧ engine.quorumSize ≤ (insert id (engine.votes .commit target)).card then ∅
      else if phase = .commit ∧ height = target then insert id (engine.votes .commit target)
      else engine.votes phase height := by
  by_cases enough : engine.quorumSize ≤ (insert id (engine.votes .commit target)).card
  · rw [countCommit_enough enough]
    by_cases here : height = target
    · rw [if_pos ⟨here, enough⟩, here]
      cases phase <;> simp [votes]
    · cases phase <;> simp [votes, here, lookup_erase_ne]
  · rw [countCommit_few enough, if_neg fun both => enough both.2]
    by_cases here : height = target
    · subst here
      cases phase <;> simp [votes]
    · cases phase <;> simp [votes, here, lookup_insert_ne]

theorem lookup_countCommit :
    (engine.countCommit target id).finalizedBlocks.lookup height =
      if height = target ∧ engine.quorumSize ≤ (insert id (engine.votes .commit target)).card then some .committed
      else engine.finalizedBlocks.lookup height := by
  by_cases enough : engine.quorumSize ≤ (insert id (engine.votes .commit target)).card
  · rw [countCommit_enough enough]
    by_cases here : height = target
    · rw [if_pos ⟨here, enough⟩, here, lookup_insert]
    · rw [if_neg fun both => here both.1, lookup_insert_ne here]
  · rw [countCommit_few enough, if_neg fun both => enough both.2]

theorem mem_votes_countPrepare (counted : voter ∈ (engine.countPrepare target id).votes phase height) :
    voter ∈ engine.votes phase height ∨ phase = .prepare ∧ height = target ∧ voter = id := by
  rw [votes_countPrepare] at counted
  split at counted
  · rename_i here
    obtain ⟨rfl, rfl⟩ := here
    exact (mem_insert.mp counted).symm.imp_right fun same => ⟨rfl, rfl, same⟩
  · exact .inl counted

theorem mem_votes_countCommit (counted : voter ∈ (engine.countCommit target id).votes phase height) :
    voter ∈ engine.votes phase height ∨ phase = .commit ∧ height = target ∧ voter = id := by
  rw [votes_countCommit] at counted
  split at counted
  · cases Finset.notMem_empty _ counted
  split at counted
  · rename_i here
    obtain ⟨rfl, rfl⟩ := here
    exact (mem_insert.mp counted).symm.imp_right fun same => ⟨rfl, rfl, same⟩
  · exact .inl counted

theorem finalizedBlocks_countPrepare
    (reached : (engine.countPrepare target id).finalizedBlocks.lookup height = some state) :
    engine.finalizedBlocks.lookup height = some state ∨
      height = target ∧ state = .prepared ∧ engine.quorumSize ≤ (insert id (engine.votes .prepare target)).card := by
  rw [lookup_countPrepare] at reached
  split at reached
  · rename_i here
    exact .inr ⟨here.1, (some.inj reached).symm, here.2⟩
  · exact .inl reached

theorem finalizedBlocks_countCommit
    (reached : (engine.countCommit target id).finalizedBlocks.lookup height = some state) :
    engine.finalizedBlocks.lookup height = some state ∨
      height = target ∧ state = .committed ∧ engine.quorumSize ≤ (insert id (engine.votes .commit target)).card := by
  rw [lookup_countCommit] at reached
  split at reached
  · rename_i here
    exact .inr ⟨here.1, (some.inj reached).symm, here.2⟩
  · exact .inl reached

/-- What counting a vote leaves alone. -/
structure SameRecords (engine next : PbftConsensusEngine) : Prop where
  quorumSize : next.quorumSize = engine.quorumSize
  knownValidators : next.knownValidators = engine.knownValidators
  validatorPubkeys : next.validatorPubkeys = engine.validatorPubkeys
  blockHashes : next.blockHashes = engine.blockHashes

variable {next : PbftConsensusEngine}

theorem SameRecords.trans {later} (first : engine.SameRecords next)
    (second : next.SameRecords later) : engine.SameRecords later :=
  ⟨second.quorumSize.trans first.quorumSize, second.knownValidators.trans first.knownValidators,
    second.validatorPubkeys.trans first.validatorPubkeys, second.blockHashes.trans first.blockHashes⟩

theorem sameRecords_countPrepare (engine : PbftConsensusEngine) (height : U64) (id : String) :
    engine.SameRecords (engine.countPrepare height id) := ⟨rfl, rfl, rfl, rfl⟩

theorem sameRecords_countCommit (engine : PbftConsensusEngine) (height : U64) (id : String) :
    engine.SameRecords (engine.countCommit height id) := by
  simp only [countCommit]
  split <;> exact ⟨rfl, rfl, rfl, rfl⟩

theorem Serves.of_sameRecords {committee} (serves : engine.Serves committee)
    (same : engine.SameRecords next) : next.Serves committee where
  known := same.knownValidators.trans serves.known
  quorum := by rw [same.quorumSize, same.knownValidators, serves.quorum]
  key id key := by rw [same.validatorPubkeys, serves.key]

end Accumulators

section Certificates

variable (honest : Finset String) (voted : PbftPhase → U64 → String → String → Prop)

/-- A quorum for the block recorded at the height, in which every honest
member voted for it. -/
def HasCertificate (engine : PbftConsensusEngine) (phase : PbftPhase) (height : U64) : Prop :=
  ∃ hash, engine.blockHashes.lookup height = some hash ∧
    Quorum.Certified engine.knownValidators (engine.knownValidators \ honest) (voted phase height) hash

/-- The accumulators hold votes the honest members cast, and the states
`Prepared` and `Committed` stand for certificates. -/
structure Backed (engine : PbftConsensusEngine) : Prop where
  counted : ∀ {phase height id}, id ∈ engine.votes phase height → id ∈ engine.knownValidators ∧
    ∃ hash, engine.blockHashes.lookup height = some hash ∧ (id ∈ honest → voted phase height id hash)
  prepared : ∀ {height}, engine.finalizedBlocks.lookup height = some .prepared →
    engine.HasCertificate honest voted .prepare height
  committed : ∀ {height}, engine.finalizedBlocks.lookup height = some .committed →
    engine.HasCertificate honest voted .prepare height ∧ engine.HasCertificate honest voted .commit height

variable {honest voted} {engine next : PbftConsensusEngine} {height : U64} {id hash : String} {phase : PbftPhase}

theorem backed_fromValidatorKeys (known : Finset String) (keys : HashMap String Bytes) :
    (fromValidatorKeys known keys).Backed honest voted where
  counted {phase _ _} counted := by cases phase <;> simp [votes, fromValidatorKeys] at counted
  prepared reached := by simp [fromValidatorKeys] at reached
  committed reached := by simp [fromValidatorKeys] at reached

variable {voted' : PbftPhase → U64 → String → String → Prop}

section
variable (more : ∀ phase height id hash, voted phase height id hash → voted' phase height id hash)
include more

theorem HasCertificate.mono (certificate : engine.HasCertificate honest voted phase height) :
    engine.HasCertificate honest voted' phase height := by
  obtain ⟨hash, recorded, certified⟩ := certificate
  exact ⟨hash, recorded, certified.mono fun voter => more phase height voter hash⟩

theorem Backed.mono (backed : engine.Backed honest voted) : engine.Backed honest voted' where
  counted member := by
    obtain ⟨known, hash, recorded, cast⟩ := backed.counted member
    exact ⟨known, hash, recorded, fun honest => more _ _ _ _ (cast honest)⟩
  prepared reached := (backed.prepared reached).mono more
  committed reached := (backed.committed reached).imp (.mono more) (.mono more)

end

/-- A certificate outlives every change that keeps the members and the
recorded hashes. -/
theorem HasCertificate.of_records (certificate : engine.HasCertificate honest voted phase height)
    (members : next.knownValidators = engine.knownValidators)
    (hashes : ∀ height hash, engine.blockHashes.lookup height = some hash →
      next.blockHashes.lookup height = some hash) : next.HasCertificate honest voted phase height := by
  obtain ⟨hash, recorded, certified⟩ := certificate
  refine ⟨hash, hashes height hash recorded, ?_⟩
  rw [members]
  exact certified

/-- One more vote makes a certificate once the votes reach the quorum. -/
theorem Backed.hasCertificate (backed : engine.Backed honest voted)
    (quorum : engine.quorumSize = Quorum.threshold engine.knownValidators.card)
    (known : id ∈ engine.knownValidators) (recorded : engine.blockHashes.lookup height = some hash)
    (cast : id ∈ honest → voted phase height id hash)
    (enough : engine.quorumSize ≤ (insert id (engine.votes phase height)).card) :
    engine.HasCertificate honest voted phase height := by
  have each : ∀ voter ∈ insert id (engine.votes phase height),
      voter ∈ engine.knownValidators ∧ (voter ∈ honest → voted phase height voter hash) := by
    intro voter member
    rcases mem_insert.mp member with rfl | before
    · exact ⟨known, cast⟩
    obtain ⟨knownBefore, other, same, castBefore⟩ := backed.counted before
    rw [recorded] at same
    cases same
    exact ⟨knownBefore, castBefore⟩
  refine ⟨hash, recorded, _, fun voter member => (each voter member).1, quorum ▸ enough, ?_⟩
  intro voter member correct
  refine (each voter member).2 (by_contra fun faulty => correct ?_)
  exact mem_sdiff.mpr ⟨(each voter member).1, faulty⟩

theorem Backed.admitProposal (backed : engine.Backed honest voted) (fresh : engine.blockHashes.lookup height = none) :
    (engine.admitProposal height hash).Backed honest voted := by
  have hashes : ∀ other hash', engine.blockHashes.lookup other = some hash' →
      (engine.admitProposal height hash).blockHashes.lookup other = some hash' :=
    fun _ _ => blockHashes_admitProposal fresh
  have states : ∀ other state, state ≠ .proposed →
      (engine.admitProposal height hash).finalizedBlocks.lookup other = some state →
        engine.finalizedBlocks.lookup other = some state := by
    intro other state further reached
    by_cases here : other = height
    · subst here
      exact absurd (some.inj ((lookup_insert _).symm.trans reached)).symm further
    · exact (lookup_insert_ne here).symm.trans reached
  constructor
  · intro phase other voter counted
    rw [votes_admitProposal] at counted
    obtain ⟨known, hash', recorded, cast⟩ := backed.counted counted
    exact ⟨known, hash', hashes other hash' recorded, cast⟩
  · intro other reached
    exact (backed.prepared (states other _ (by decide) reached)).of_records rfl hashes
  · intro other reached
    obtain ⟨prepare, commit⟩ := backed.committed (states other _ (by decide) reached)
    exact ⟨prepare.of_records rfl hashes, commit.of_records rfl hashes⟩

theorem Backed.countPrepare (backed : engine.Backed honest voted)
    (quorum : engine.quorumSize = Quorum.threshold engine.knownValidators.card)
    (known : id ∈ engine.knownValidators) (recorded : engine.blockHashes.lookup height = some hash)
    (cast : id ∈ honest → voted .prepare height id hash) :
    (engine.countPrepare height id).Backed honest voted := by
  constructor
  · intro phase other voter counted
    rcases mem_votes_countPrepare counted with before | ⟨rfl, rfl, rfl⟩
    · exact backed.counted before
    · exact ⟨known, hash, recorded, cast⟩
  · intro other reached
    rcases finalizedBlocks_countPrepare reached with before | ⟨rfl, -, enough⟩
    · exact backed.prepared before
    · exact backed.hasCertificate quorum known recorded cast enough
  · intro other reached
    rcases finalizedBlocks_countPrepare reached with before | ⟨-, state, -⟩
    · exact backed.committed before
    · cases state

theorem Backed.countCommit (backed : engine.Backed honest voted)
    (quorum : engine.quorumSize = Quorum.threshold engine.knownValidators.card)
    (prepared : engine.finalizedBlocks.lookup height = some .prepared)
    (known : id ∈ engine.knownValidators) (recorded : engine.blockHashes.lookup height = some hash)
    (cast : id ∈ honest → voted .commit height id hash) :
    (engine.countCommit height id).Backed honest voted := by
  obtain ⟨-, members, -, hashes⟩ := sameRecords_countCommit engine height id
  have carried {phase : PbftPhase} {other : U64} (certificate : engine.HasCertificate honest voted phase other) :
      (engine.countCommit height id).HasCertificate honest voted phase other :=
    certificate.of_records members fun _ _ recorded => hashes ▸ recorded
  constructor
  · intro phase other voter counted
    rw [members, hashes]
    rcases mem_votes_countCommit counted with before | ⟨rfl, rfl, rfl⟩
    · exact backed.counted before
    · exact ⟨known, hash, recorded, cast⟩
  · intro other reached
    rcases finalizedBlocks_countCommit reached with before | ⟨-, state, -⟩
    · exact carried (backed.prepared before)
    · cases state
  · intro other reached
    rcases finalizedBlocks_countCommit reached with before | ⟨rfl, -, enough⟩
    · exact (backed.committed before).imp carried carried
    · exact ⟨carried (backed.prepared prepared), carried (backed.hasCertificate quorum known recorded cast enough)⟩

end Certificates

end PbftConsensusEngine

end Bleep
