import Bleep.Consensus.ProposerSelection

namespace Bleep

open Words Results PoSConsensusEngine BlockProducer ValidatorIdentity WeightedChoice List Option Except

section Sites
variable (sha256 : Bytes → Hash32) (schnorrkel : Schnorrkel) (registry : ValidatorRegistry) (height : U64)
  (previousRandomness : Hash32)

/-- The validator that the producer finds selected. -/
def producerSelects : Option String :=
  (selectProposer sha256 schnorrkel height (registry.participants.map BlockProducer.validatorStake)
    previousRandomness).toOption

/-- The validator that `verify_pos_vrf_block` finds selected. -/
def verifierSelects : Option String :=
  ((registry.participants.filter ValidatorIdentity.canParticipate).mapM verifiedStake).toOption.bind fun stakes =>
    (selectProposer sha256 schnorrkel height stakes previousRandomness).toOption

end Sites

/-- No participating validator has an incident on record or a stake beyond
64 bits. -/
def ValidatorRegistry.Unblemished (registry : ValidatorRegistry) : Prop :=
  ∀ validator ∈ registry.participants,
    validator.equivocationCount = 0 ∧ validator.downtimeCount = 0 ∧ validator.stake.toNat < 2 ^ 64

/-- No two participating validators sign with one key. -/
def ValidatorRegistry.DistinctKeys (registry : ValidatorRegistry) : Prop :=
  ∀ left ∈ registry.participants, ∀ right ∈ registry.participants,
    eqIgnoreAsciiCase left.signingKeyId right.signingKeyId = true → left = right

/-- The verifier's entry for a stake that fits. -/
def verifiedEntry (validator : ValidatorIdentity) : ValidatorStake where
  id := validator.id
  stake := validator.stake.setWidth 64
  active := true
  slashingCount := 0
  vrfPublicKey := validator.vrfPublicKey

section Entries
variable {registry : ValidatorRegistry} {validator : ValidatorIdentity}

theorem able_of_mem (listed : validator ∈ registry.participants) : validator.canParticipate = true :=
  (mem_filter.mp listed).2

@[simp] theorem filter_participants :
    registry.participants.filter canParticipate = registry.participants :=
  List.filter_eq_self.mpr fun _ => able_of_mem

theorem verifiedStake_cases (able : validator.canParticipate = true) :
    validator.stake.toNat < 2 ^ 64 ∧ verifiedStake validator = .ok (verifiedEntry validator) ∨
      ¬validator.stake.toNat < 2 ^ 64 ∧ verifiedStake validator = .error (.stakeExceeds validator.id) := by
  rw [verifiedStake, tryU64, (effectiveStake_of_canParticipate able).1]
  by_cases fits : validator.stake.toNat < 2 ^ 64
  · rw [if_pos fits]
    exact .inl ⟨fits, rfl⟩
  · rw [if_neg fits]
    exact .inr ⟨fits, rfl⟩

theorem mapM_verifiedStake_cases {identities : List ValidatorIdentity}
    (able : ∀ validator ∈ identities, validator.canParticipate = true) :
    (∀ validator ∈ identities, validator.stake.toNat < 2 ^ 64) ∧
        identities.mapM verifiedStake = .ok (identities.map verifiedEntry) ∨
      (¬∀ validator ∈ identities, validator.stake.toNat < 2 ^ 64) ∧
        ∃ id, identities.mapM verifiedStake = .error (.stakeExceeds id) := by
  induction identities with
  | nil => exact .inl ⟨forall_mem_nil _, rfl⟩
  | cons validator identities ih =>
    rw [forall_mem_cons] at able
    rw [mapM_cons, forall_mem_cons]
    rcases verifiedStake_cases able.1 with ⟨small, done⟩ | ⟨large, failed⟩
    · rw [done]
      rcases ih able.2 with ⟨others, rest⟩ | ⟨others, id, rest⟩
      · rw [rest]
        exact .inl ⟨⟨small, others⟩, rfl⟩
      · rw [rest]
        exact .inr ⟨fun all => others all.2, id, rfl⟩
    · rw [failed]
      exact .inr ⟨fun all => large all.1, _, rfl⟩

/-- The producer's entry takes part exactly when no incident is on record. -/
theorem validatorStake_canParticipate (able : validator.canParticipate = true) :
    (validatorStake validator).canParticipate = true ↔
      validator.equivocationCount = 0 ∧ validator.downtimeCount = 0 := by
  have single := (effectiveStake_of_canParticipate able).2.2
  simp only [ValidatorStake.canParticipate, validatorStake, Bool.true_and, decide_eq_true_eq, single]
  rw [← BitVec.toNat_inj, ← BitVec.toNat_inj, ← BitVec.toNat_inj, toNat_saturatingAdd, toNat_saturatingAdd]
  simp only [BitVec.toNat_zero, BitVec.ofNat_eq_ofNat]
  omega

theorem filter_verifiedEntry (identities : List ValidatorIdentity) :
    (identities.map verifiedEntry).filter ValidatorStake.canParticipate = identities.map verifiedEntry := by
  rw [filter_eq_self]
  intro entry listed
  obtain ⟨validator, -, rfl⟩ := mem_map.mp listed
  rfl

theorem weight_verifiedEntry (small : validator.stake.toNat < 2 ^ 64) :
    weight (verifiedEntry validator) = validator.stake.toNat := by
  rw [weight, verifiedEntry, BitVec.toNat_setWidth, Nat.mod_eq_of_lt small]

end Entries

section Agreement
variable {sha256 : Bytes → Hash32} {schnorrkel : Schnorrkel} {registry : ValidatorRegistry} {height : U64}
  {previousRandomness : Hash32} {id : String}

theorem verifierSelects_of_small (small : ∀ validator ∈ registry.participants, validator.stake.toNat < 2 ^ 64) :
    verifierSelects sha256 schnorrkel registry height previousRandomness =
      (selectProposer sha256 schnorrkel height (registry.participants.map verifiedEntry)
        previousRandomness).toOption := by
  rw [verifierSelects, filter_participants]
  rcases mapM_verifiedStake_cases fun _ => able_of_mem with ⟨-, built⟩ | ⟨large, -⟩
  · rw [built]
    rfl
  · exact absurd small large

theorem verifierSelects_eq_some
    (chosen : verifierSelects sha256 schnorrkel registry height previousRandomness = some id) :
    (∀ validator ∈ registry.participants, validator.stake.toNat < 2 ^ 64) ∧
      selectProposer sha256 schnorrkel height (registry.participants.map verifiedEntry) previousRandomness =
        .ok id := by
  rcases mapM_verifiedStake_cases fun _ => able_of_mem with ⟨small, -⟩ | ⟨-, error, failed⟩
  · rw [verifierSelects_of_small small] at chosen
    exact ⟨small, toOption_eq_some.mp chosen⟩
  · rw [verifierSelects, filter_participants, failed] at chosen
    cases chosen

/-- Without blemishes both sides build the same list. -/
theorem ValidatorRegistry.Unblemished.stakes_eq (unblemished : registry.Unblemished) :
    registry.participants.map validatorStake = registry.participants.map verifiedEntry := by
  refine map_congr_left fun validator listed => ?_
  obtain ⟨equivocation, downtime, small⟩ := unblemished validator listed
  obtain ⟨effective, -, single⟩ := effectiveStake_of_canParticipate (able_of_mem listed)
  simp only [validatorStake, verifiedEntry, effective, tryU64, small, if_true, getD_some, single, equivocation,
    downtime]
  rfl

/-- A digest under which the seed is a given number. -/
def seedDigest (seed : U64) : Bytes → Hash32 := fun _ =>
  ⟨(le64 seed ++ List.replicate 24 0).toArray, by simp [le64]⟩

theorem computeSeed_seedDigest (seed : U64) : computeSeed (seedDigest seed) height previousRandomness = seed := by
  have front : (le64 seed ++ List.replicate 24 0).take 8 = le64 seed := List.take_left' (leBytes_length ..)
  have bytes : (seedDigest seed (proposerSelectionDomain ++ le64 height ++ previousRandomness.toList)).toList =
      le64 seed ++ List.replicate 24 0 := rfl
  rw [computeSeed, bytes, front, le64, fromLeBytes_leBytes]
  apply BitVec.eq_of_toNat_eq
  rw [BitVec.toNat_ofNat]
  omega

/-- Every participating validator is the verifier's choice under some digest. -/
theorem exists_verifierSelects {validator}
    (small : ∀ validator ∈ registry.participants, validator.stake.toNat < 2 ^ 64)
    (electable : Electable schnorrkel (registry.participants.map verifiedEntry))
    (listed : validator ∈ registry.participants) : ∃ sha256,
      verifierSelects sha256 schnorrkel registry height previousRandomness = some validator.id := by
  have staked : 0 < weight (verifiedEntry validator) := by
    rw [weight_verifiedEntry (small validator listed)]
    exact (effectiveStake_of_canParticipate (able_of_mem listed)).2.1
  obtain ⟨point, below, picked⟩ := exists_point (mem_map_of_mem listed) staked
  have bound := electable.fits
  have seed : (BitVec.ofNat 64 point).toNat = point := by
    rw [BitVec.toNat_ofNat, Nat.mod_eq_of_lt (by omega)]
  rw [← filter_verifiedEntry] at electable
  obtain ⟨chosen, selected, found⟩ := electable.selects (seedDigest (BitVec.ofNat 64 point)) height previousRandomness
  rw [filter_verifiedEntry, computeSeed_seedDigest, seed, Nat.mod_eq_of_lt below, picked] at found
  obtain rfl := some.inj found
  refine ⟨seedDigest (BitVec.ofNat 64 point), ?_⟩
  rw [verifierSelects_of_small small, toOption_eq_some, selected]
  rfl

/-- The producer only selects validators without an incident. -/
theorem clean_of_producerSelects
    (chosen : producerSelects sha256 schnorrkel registry height previousRandomness = some id) :
    ∃ validator ∈ registry.participants, validator.id = id ∧ validator.equivocationCount = 0 ∧
      validator.downtimeCount = 0 := by
  have selected := toOption_eq_some.mp chosen
  obtain ⟨entry, again, picked⟩ := (Electable.of_selected selected).selects sha256 height previousRandomness
  rw [selected] at again
  have member := mem_filter.mp (mem_of_pick picked)
  obtain ⟨validator, listed, rfl⟩ := mem_map.mp member.1
  have clean := (validatorStake_canParticipate (able_of_mem listed)).mp member.2
  exact ⟨validator, listed, (ok.inj again).symm, clean⟩

end Agreement

section Honest
variable {hashes : Hashes} {schnorrkel : Schnorrkel} {registry : ValidatorRegistry} {block parent : Block}

theorem claimSlot_eq_some {hexText syncCommittee config validatorId myStake keys}
    (claimed : claimSlot hashes schnorrkel hexText syncCommittee config validatorId myStake registry
      parent = .ok (some keys)) : ∃ previousRandomness validator,
      randomnessFromParentBlock hashes schnorrkel parent
        (parentVrfPublicKey registry.participants parent) = .ok previousRandomness ∧
      selectProposer hashes.sha256 schnorrkel (parent.index + 1)
        (registry.participants.map validatorStake) previousRandomness = .ok validatorId ∧
      registry.validators.lookup validatorId = some validator ∧
      eqIgnoreAsciiCase validator.signingKeyId (Hex.encode config.validatorPk) = true := by
  obtain ⟨previousRandomness, derived, claimed⟩ := ok_of_bind claimed
  obtain ⟨localKey, -, claimed⟩ := ok_of_bind claimed
  split at claimed
  · cases claimed
  split at claimed
  · cases claimed
  split at claimed
  · cases claimed
  obtain ⟨_, -, claimed⟩ := ok_of_bind claimed
  obtain ⟨-, -, claimed⟩ := ok_of_bind claimed
  obtain ⟨selected, chosen, outcome⟩ := ok_of_bind claimed
  split at outcome
  · cases outcome
  rename_i own
  split at outcome
  · rename_i configured
    obtain rfl := not_not.mp own
    obtain ⟨validator, found, matching⟩ := (any_eq_true _ _).mp configured
    rw [Bool.and_eq_true] at matching
    exact ⟨previousRandomness, validator, ok_of_mapError derived, ok_of_mapError chosen, found, matching.2⟩
  · cases outcome

variable {identities : List ValidatorIdentity}

theorem error_of_registeredParentKey {error} (failed : registeredParentKey parent identities = .error error) :
    error = .parentMissingSigningKey ∨ error = .parentKeyNotRegistered := by
  unfold registeredParentKey at failed
  split at failed
  · rcases error_of_bind failed with missing | ⟨signingKeyId, -, failed⟩
    · exact .inl (error_of_okOr missing)
    · rcases error_of_bind failed with unknown | ⟨signer, -, impossible⟩
      · exact .inr (error_of_okOr unknown)
      · cases impossible
  · cases failed

theorem verifyPosVrfBlock_wrongProposer {proposer selected}
    (failed : verifyPosVrfBlock hashes schnorrkel block parent identities = .error (.wrongProposer proposer selected)) :
    ∃ signingKeyId signer parentKey previousRandomness, block.signingKeyId = some signingKeyId ∧
      (identities.find? fun validator =>
        validator.canParticipate && eqIgnoreAsciiCase validator.signingKeyId signingKeyId) = some signer ∧
      registeredParentKey parent identities = .ok parentKey ∧
      randomnessFromParentBlock hashes schnorrkel parent parentKey = .ok previousRandomness ∧
      selectProposer hashes.sha256 schnorrkel block.index ((identities.filter canParticipate).map verifiedEntry)
        previousRandomness = .ok selected ∧
      signer.id = proposer ∧ selected ≠ proposer := by
  unfold verifyPosVrfBlock at failed
  split at failed
  · cases failed
  rcases error_of_bind failed with missing | ⟨signingKeyId, signing, failed⟩
  · cases error_of_okOr missing
  rcases error_of_bind failed with unknown | ⟨signer, signs, failed⟩
  · cases error_of_okOr unknown
  rcases error_of_bind failed with keyless | ⟨parentKey, keyed, failed⟩
  · rcases error_of_registeredParentKey keyless with impossible | impossible <;> cases impossible
  rcases error_of_bind failed with underived | ⟨previousRandomness, derived, failed⟩
  · obtain ⟨_, impossible⟩ := error_of_mapError underived
    cases impossible
  rcases mapM_verifiedStake_cases fun _ listed => (mem_filter.mp listed).2 with ⟨-, built⟩ | ⟨-, id, oversized⟩
  rotate_left
  · rw [oversized] at failed
    cases failed
  rw [built] at failed
  change (Except.mapError _ _ >>= _) = _ at failed
  rcases error_of_bind failed with unselected | ⟨chosen, selects, failed⟩
  · obtain ⟨_, impossible⟩ := error_of_mapError unselected
    cases impossible
  split at failed
  · rename_i different
    cases failed
    exact ⟨signingKeyId, signer, parentKey, previousRandomness, ok_of_okOr signing, ok_of_okOr signs, keyed,
      ok_of_mapError derived, ok_of_mapError selects, rfl, different⟩
  · cases checked : verifyBlockVrf hashes schnorrkel block signer.vrfPublicKey with
    | error text =>
      rw [checked] at failed
      cases failed
    | ok next =>
      rw [checked] at failed
      cases failed

/-- Both sides draw the same randomness from the parent, if both draw one. -/
theorem randomness_agrees {parentKey drawn produced}
    (keyed : registeredParentKey parent identities = .ok parentKey)
    (derived : randomnessFromParentBlock hashes schnorrkel parent parentKey = .ok drawn)
    (derived' : randomnessFromParentBlock hashes schnorrkel parent
      (parentVrfPublicKey identities parent) = .ok produced) : drawn = produced := by
  unfold registeredParentKey at keyed
  split at keyed
  · obtain ⟨signingKeyId, signing, keyed⟩ := ok_of_bind keyed
    obtain ⟨signer, signs, keyed⟩ := ok_of_bind keyed
    cases keyed
    have same : parentVrfPublicKey identities parent = some signer.vrfPublicKey := by
      rw [parentVrfPublicKey, ok_of_okOr signing, bind_some, ok_of_okOr signs, map_some]
    rw [same, derived] at derived'
    exact ok.inj derived'
  · rename_i early
    have old : parent.protocolVersion < 5 := BitVec.not_le.mp early
    simp only [randomnessFromParentBlock, old, if_true, ite_self, ok.injEq] at derived derived'
    rw [← derived, ← derived']

end Honest

/-- Producer and verifier select the same validator at a height, whatever the
digest, exactly when no participating validator has an incident on record or a
stake beyond 64 bits, or when neither selects anyone; and then a block of the
selected validator is not blamed on the wrong proposer, if signing keys are not
shared. -/
theorem proposer_agreement_iff {registry : ValidatorRegistry} (reached : registry.Reached) (schnorrkel : Schnorrkel)
    (height : U64) (previousRandomness : Hash32) :
    ((∀ sha256, producerSelects sha256 schnorrkel registry height previousRandomness =
        verifierSelects sha256 schnorrkel registry height previousRandomness) ↔
      registry.Unblemished ∨ ∀ sha256,
        producerSelects sha256 schnorrkel registry height previousRandomness = none ∧
        verifierSelects sha256 schnorrkel registry height previousRandomness = none) ∧
    (registry.Unblemished → registry.DistinctKeys →
      ∀ (hashes : Hashes) (hexText : Hex.FromHexError → String)
        (syncCommittee : List (String × Bytes) → Except String Unit) (config : ProducerConfig) (validatorId : String)
        (myStake : U64) (keys : List Bytes) (block parent : Block),
      BlockProducer.claimSlot hashes schnorrkel hexText syncCommittee config validatorId myStake registry parent =
        .ok (some keys) →
      block.index = parent.index + 1 → block.signingKeyId = some (Hex.encode config.validatorPk) →
      ∀ proposer selected, verifyPosVrfBlock hashes schnorrkel block parent registry.participants ≠
        .error (.wrongProposer proposer selected)) := by
  refine ⟨⟨fun agree => ?_, ?_⟩, ?_⟩
  · by_contra neither
    rw [not_or, not_forall] at neither
    obtain ⟨blemished, sha256, fruitful⟩ := neither
    cases chosen : verifierSelects sha256 schnorrkel registry height previousRandomness with
    | none => exact fruitful ⟨by rw [agree, chosen], chosen⟩
    | some id =>
      obtain ⟨small, selected⟩ := verifierSelects_eq_some chosen
      have electable := Electable.of_selected selected
      rw [filter_verifiedEntry] at electable
      refine blemished fun validator listed => ?_
      -- under a digest that lets the verifier choose this validator, the producer has to choose it as well
      obtain ⟨digest, verified⟩ := @exists_verifierSelects schnorrkel registry height previousRandomness validator small
        electable listed
      obtain ⟨clean, member, same, equivocation, downtime⟩ := clean_of_producerSelects ((agree digest).trans verified)
      have distinct := ValidatorRegistry.participants_ids_nodup reached.keyed
      rw [← inj_on_of_nodup_map distinct member listed same]
      exact ⟨equivocation, downtime, small clean member⟩
  · rintro (unblemished | neither) sha256
    · rw [producerSelects, unblemished.stakes_eq,
        verifierSelects_of_small fun validator listed => (unblemished validator listed).2.2]
    · rw [(neither sha256).1, (neither sha256).2]
  · intro unblemished distinct hashes hexText syncCommittee config validatorId myStake keys block parent claimed index
      signed proposer selected blamed
    obtain ⟨produced, own, derived', chosen', found, configured⟩ := claimSlot_eq_some claimed
    obtain ⟨signingKeyId, signer, parentKey, drawn, signing, signs, keyed, derived, chosen, rfl, different⟩ :=
      verifyPosVrfBlock_wrongProposer blamed
    obtain rfl := randomness_agrees keyed derived derived'
    rw [filter_participants, ← unblemished.stakes_eq, index, chosen'] at chosen
    obtain rfl := ok.inj chosen
    -- the selected validator is the node itself, and the signer of the block
    obtain ⟨validator, listed, same, -, -⟩ := clean_of_producerSelects (toOption_eq_some.mpr chosen')
    have entry := ((ValidatorRegistry.mem_participants reached.keyed).mp listed).2.1
    rw [same, found] at entry
    obtain rfl := some.inj entry
    rw [signed] at signing
    obtain rfl := some.inj signing
    have signature := find?_some signs
    rw [Bool.and_eq_true] at signature
    have shared : eqIgnoreAsciiCase signer.signingKeyId own.signingKeyId = true := by
      rw [eqIgnoreAsciiCase, beq_iff_eq] at configured signature ⊢
      rw [signature.2, configured]
    rw [distinct signer (mem_of_find?_eq_some signs) own listed shared, same] at different
    exact different rfl

section Duo
variable {key : Bytes}

variable (id : String)

/-- What `new_with_vrf_public_key` gives. -/
def duoValidator (key : Bytes) (stake : U128) : ValidatorIdentity where
  id := id
  kyberPublicKey := List.replicate 1568 0
  signingKeyId := id ++ "_signing_key"
  vrfPublicKey := key
  stake := stake
  state := .inactive
  reputation := 1.0
  doubleSignCount := 0
  equivocationCount := 0
  downtimeCount := 0
  joinedEpoch := 0
  exitedEpoch := none
  totalSlashed := 0

/-- Two validators enter and are activated. -/
def duoCalls (key : Bytes) (alice bob : U128) : List RegistryCall :=
  [.registerValidator (duoValidator "alice" key alice), .registerValidator (duoValidator "bob" key bob),
    .activateValidator "alice", .activateValidator "bob"]

/-- The same, with one unit more for the one who is late and then loses it. -/
def lateCalls (key : Bytes) (someone : String) : List RegistryCall :=
  duoCalls key (if someone = "alice" then 4 else 3) (if someone = "bob" then 4 else 3)
    ++ [.recordValidatorDowntime someone 1]

theorem participants_duo {registry : ValidatorRegistry} {first second : ValidatorIdentity}
    (active : registry.activeValidators = {"bob", "alice"})
    (found : registry.validators.lookup "alice" = some first) (found' : registry.validators.lookup "bob" = some second)
    (able : first.canParticipate = true) (able' : second.canParticipate = true) :
    registry.participants = [first, second] := by
  have sorted : registry.activeValidators.sort (· ≤ ·) = ["alice", "bob"] := by
    rw [active, Finset.pair_comm, Finset.sort_insert _ (by decide) (by decide), Finset.sort_singleton]
  rw [ValidatorRegistry.participants, ValidatorRegistry.getActiveValidators, sorted]
  simp [found, found', able, able']

/-- The validator once it is active. -/
def joined (key : Bytes) (stake : U128) : ValidatorIdentity :=
  { duoValidator id key stake with state := .active }

/-- The validator after a downtime that costs it one unit. -/
def late (validator : ValidatorIdentity) : ValidatorIdentity :=
  { validator with
    stake := saturatingSub validator.stake 1
    totalSlashed := saturatingAdd validator.totalSlashed 1
    reputation := validator.reputation * 0.95
    downtimeCount := validator.downtimeCount + 1 }

theorem joined_able {stake} (staked : 0 < stake) :
    (joined id key stake).canParticipate = true := by
  have trusted : (0.0 : Float) < 1.0 := by decide
  simp only [canParticipate, joined, duoValidator, trusted, staked, decide_true, Bool.and_self]

theorem late_able : (late (joined id key 4)).canParticipate = true := by
  have trusted : (0.0 : Float) < 1.0 * 0.95 := by decide
  have staked : 0 < saturatingSub (4 : U128) 1 := by decide
  simp only [canParticipate, late, joined, duoValidator, trusted, staked, decide_true, Bool.and_self]

theorem participants_both : (ValidatorRegistry.new.run (duoCalls key 3 3)).participants =
    [joined "alice" key 3, joined "bob" key 3] :=
  participants_duo rfl rfl rfl (joined_able _ (by decide)) (joined_able _ (by decide))

theorem participants_lateAlice : (ValidatorRegistry.new.run (lateCalls key "alice")).participants =
    [late (joined "alice" key 4), joined "bob" key 3] :=
  participants_duo rfl rfl rfl (late_able _) (joined_able _ (by decide))

theorem participants_lateBob : (ValidatorRegistry.new.run (lateCalls key "bob")).participants =
    [joined "alice" key 3, late (joined "bob" key 4)] :=
  participants_duo rfl rfl rfl (joined_able _ (by decide)) (late_able _)

theorem duoValidator_new {schnorrkel} (valid : schnorrkel.publicKey key = .ok ()) {id stake}
    (named : id.isEmpty = false) (staked : stake ≠ 0) :
    newWithVrfPublicKey schnorrkel id (List.replicate 1568 0) (id ++ "_signing_key") key stake 0 =
      .ok (duoValidator id key stake) := by
  have size : ¬(List.replicate 1568 (0 : UInt8)).length ≠ 1568 := not_not.mpr length_replicate
  simp only [newWithVrfPublicKey, new, named, Bool.false_eq_true, if_false, staked, size, valid]
  rfl

variable {schnorrkel : Schnorrkel} {registry : ValidatorRegistry} {sha256 : Bytes → Hash32} {height : U64}
  {previousRandomness : Hash32}

/-- The only validator without an incident is selected by the producer. -/
theorem producerSelects_only {validator} (valid : schnorrkel.publicKey validator.vrfPublicKey = .ok ())
    (staked : 0 < weight (validatorStake validator))
    (only : (registry.participants.map validatorStake).filter ValidatorStake.canParticipate =
      [validatorStake validator]) :
    producerSelects sha256 schnorrkel registry height previousRandomness = some validator.id := by
  have electable : Electable schnorrkel
      ((registry.participants.map validatorStake).filter ValidatorStake.canParticipate) := by
    rw [only]
    refine ⟨by simpa using staked, ?_, fun entry member => ?_⟩
    · rw [total_cons, total_nil, Nat.add_zero]
      exact (validatorStake validator).stake.isLt
    · rw [mem_singleton.mp member]
      exact valid
  obtain ⟨chosen, selected, picked⟩ := electable.selects sha256 height previousRandomness
  have member := mem_of_pick picked
  rw [only, mem_singleton] at member
  rw [producerSelects, selected, member]
  rfl

section
variable (id : String)

theorem late_idle : ¬(validatorStake (late (joined id key 4))).canParticipate = true := by
  have counted : ¬(0 : U32) + 1 = 0 := by decide
  rw [validatorStake_canParticipate (late_able id)]
  rintro ⟨-, clean⟩
  exact counted clean

theorem joined_elects : (validatorStake (joined id key 3)).canParticipate = true :=
  (validatorStake_canParticipate (joined_able id (by decide))).mpr ⟨rfl, rfl⟩

theorem joined_weight : 0 < weight (validatorStake (joined id key 3)) := by
  have stake : (validatorStake (joined id key 3)).stake = 3 := rfl
  rw [weight, stake]
  decide

theorem joined_small : (joined id key 3).stake.toNat < 2 ^ 64 := by
  change (3 : U128).toNat < 2 ^ 64
  decide

theorem late_small : (late (joined id key 4)).stake.toNat < 2 ^ 64 := by
  change (saturatingSub (4 : U128) 1).toNat < 2 ^ 64
  decide

theorem late_entry : verifiedEntry (late (joined id key 4)) = verifiedEntry (joined id key 3) := by
  have stake : (saturatingSub (4 : U128) 1).setWidth 64 = (3 : U128).setWidth 64 := by decide
  simp only [verifiedEntry, late, joined, duoValidator, stake]

end

theorem duo_electable (valid : schnorrkel.publicKey key = .ok ()) :
    Electable schnorrkel ([joined "alice" key 3, joined "bob" key 3].map verifiedEntry) := by
  have total : total weight ([joined "alice" key 3, joined "bob" key 3].map verifiedEntry) = 6 := rfl
  refine ⟨by rw [total]; decide, by rw [total]; decide, fun entry listed => ?_⟩
  obtain ⟨validator, member, rfl⟩ := mem_map.mp listed
  rcases mem_pair.mp member with rfl | rfl <;> exact valid

theorem lateCalls_registered {someone} (valid : schnorrkel.publicKey key = .ok ())
    {validator} (listed : .registerValidator validator ∈ lateCalls key someone) :
    ∃ id kyberPublicKey signingKeyId stake,
      newWithVrfPublicKey schnorrkel id kyberPublicKey signingKeyId key stake 0 = .ok validator := by
  have three : (3 : U128) ≠ 0 := by decide
  have four : (4 : U128) ≠ 0 := by decide
  have named : validator = duoValidator "alice" key (if someone = "alice" then 4 else 3) ∨
      validator = duoValidator "bob" key (if someone = "bob" then 4 else 3) := by
    simpa [lateCalls, duoCalls] using listed
  rcases named with rfl | rfl
  · exact ⟨_, _, _, _, duoValidator_new valid (by decide) (by split <;> assumption)⟩
  · exact ⟨_, _, _, _, duoValidator_new valid (by decide) (by split <;> assumption)⟩

/-- A VRF that accepts every key, for evaluation only. -/
def openSchnorrkel : Schnorrkel where
  publicKey _ := .ok ()
  preOut _ := .ok ()
  proof _ := .ok ()
  expandPublicKey _ := .ok []
  vrfVerify _ _ _ _ _ := .ok (Vector.replicate 32 0)

/-- Two validators without incidents: one of them is selected, and by both
sides. -/
theorem duo_agrees : (ValidatorRegistry.new.run (duoCalls [] 3 3)).Unblemished ∧ ∀ sha256, ∃ id,
    producerSelects sha256 openSchnorrkel (ValidatorRegistry.new.run (duoCalls [] 3 3)) 1 (Vector.replicate 32 0) =
      some id ∧
    verifierSelects sha256 openSchnorrkel (ValidatorRegistry.new.run (duoCalls [] 3 3)) 1 (Vector.replicate 32 0) =
      some id := by
  have unblemished : (ValidatorRegistry.new.run (duoCalls [] 3 3)).Unblemished := by
    rw [ValidatorRegistry.Unblemished, participants_both, forall_mem_cons, forall_mem_singleton]
    exact ⟨⟨rfl, rfl, joined_small _⟩, ⟨rfl, rfl, joined_small _⟩⟩
  refine ⟨unblemished, fun sha256 => ?_⟩
  have agree := (proposer_agreement_iff (ValidatorRegistry.Reached.new.run (duoCalls [] 3 3)) openSchnorrkel 1
    (Vector.replicate 32 0)).1.mpr (.inl unblemished) sha256
  have electable : Electable openSchnorrkel ([joined "alice" [] 3, joined "bob" [] 3].map verifiedEntry) :=
    duo_electable rfl
  rw [← filter_verifiedEntry] at electable
  obtain ⟨chosen, selected, -⟩ := electable.selects sha256 1 (Vector.replicate 32 0)
  have verified : verifierSelects sha256 openSchnorrkel (ValidatorRegistry.new.run (duoCalls [] 3 3)) 1
      (Vector.replicate 32 0) = some chosen.id := by
    rw [verifierSelects_of_small fun validator listed => (unblemished validator listed).2.2, participants_both,
      selected]
    rfl
  exact ⟨chosen.id, agree.trans verified, verified⟩

/-- Whatever the digest, the height and the randomness: after one downtime of
one of two validators, the producer selects one of them and the verifier the
other. -/
theorem downtime_splits_selection : ∃ calls : Bytes → String → List RegistryCall,
    ∀ (schnorrkel : Schnorrkel) (key : Bytes), schnorrkel.publicKey key = .ok () →
    ∀ (sha256 : Bytes → Hash32) (height : U64) (previousRandomness : Hash32), ∃ someone,
      (∀ validator, .registerValidator validator ∈ calls key someone → ∃ id kyberPublicKey signingKeyId stake,
        ValidatorIdentity.newWithVrfPublicKey schnorrkel id kyberPublicKey signingKeyId key stake 0 = .ok validator) ∧
      ∃ produced verified,
        producerSelects sha256 schnorrkel (ValidatorRegistry.new.run (calls key someone)) height previousRandomness =
          some produced ∧
        verifierSelects sha256 schnorrkel (ValidatorRegistry.new.run (calls key someone)) height previousRandomness =
          some verified ∧
        produced ≠ verified := by
  refine ⟨lateCalls, ?_⟩
  intro schnorrkel key valid sha256 height previousRandomness
  have electable := duo_electable valid
  rw [← filter_verifiedEntry] at electable
  obtain ⟨chosen, selected, picked⟩ := electable.selects sha256 height previousRandomness
  obtain ⟨validator, member, rfl⟩ := mem_map.mp (mem_filter.mp (mem_of_pick picked)).1
  -- the verifier's list does not tell who was late: let it be the one that it selects
  rcases mem_pair.mp member with rfl | rfl
  · refine ⟨"alice", fun validator => lateCalls_registered valid, "bob", "alice", ?_, ?_, by decide⟩
    · refine @producerSelects_only _ _ _ _ _ (joined "bob" key 3) valid (joined_weight _) ?_
      rw [participants_lateAlice, map_cons, map_cons, map_nil, filter_cons_of_neg (late_idle _),
        filter_cons_of_pos (joined_elects _), filter_nil]
    · rw [verifierSelects_of_small, participants_lateAlice, map_cons, late_entry]
      · exact congrArg Except.toOption selected
      · rw [participants_lateAlice, forall_mem_cons, forall_mem_singleton]
        exact ⟨late_small _, joined_small _⟩
  · refine ⟨"bob", fun validator => lateCalls_registered valid, "alice", "bob", ?_, ?_, by decide⟩
    · refine @producerSelects_only _ _ _ _ _ (joined "alice" key 3) valid (joined_weight _) ?_
      rw [participants_lateBob, map_cons, map_cons, map_nil, filter_cons_of_pos (joined_elects _),
        filter_cons_of_neg (late_idle _), filter_nil]
    · rw [verifierSelects_of_small, participants_lateBob, map_cons, map_cons, late_entry]
      · exact congrArg Except.toOption selected
      · rw [participants_lateBob, forall_mem_cons, forall_mem_singleton]
        exact ⟨joined_small _, late_small _⟩

end Duo

end Bleep
