import Bleep.Consensus.ValidatorRegistry
import Bleep.Core.BlockValidation
import Bleep.Library.WeightedChoice
import Bleep.Producer.ExtendedProof

namespace Bleep

open Words Results BitVec WeightedChoice

structure ValidatorStake where
  id : String
  stake : U64
  active : Bool
  slashingCount : U32
  vrfPublicKey : Bytes
  deriving DecidableEq

open ValidatorStake

def ValidatorStake.canParticipate (validator : ValidatorStake) : Bool :=
  validator.active && decide (validator.slashingCount = 0)

/-- The two variants of `ConsensusError` that proposer selection returns; the
first always with participation rate 0.0 and threshold 0.66. -/
inductive SelectionError
  | insufficientValidatorParticipation
  | proposalRejected (reason : String)
  deriving DecidableEq

def SelectionError.display : SelectionError → String
  | insufficientValidatorParticipation => "Insufficient validator participation: 0.00% < 66.00%"
  | proposalRejected reason => s!"Block proposal rejected: {reason}"

def vrfKeyDerivationDomain : Bytes := utf8 "BLEEP_POS_VRF_KEY_V1"
def vrfInputDomain : Bytes := utf8 "BLEEP_POS_VRF_INPUT_V1"
def vrfOutputDomain : Bytes := utf8 "BLEEP_POS_VRF_OUTPUT_V1"
def genesisRandomnessDomain : Bytes := utf8 "BLEEP_POS_GENESIS_RANDOMNESS_V1"
def proposerSelectionDomain : Bytes := utf8 "BLEEP_POS_PROPOSER_SELECTION_V1"

namespace PoSConsensusEngine

section Vrf
variable (hashes : Hashes) (schnorrkel : Schnorrkel)

def deriveVrfPublicKey (sphincsSecretKey : Bytes) : Except String Bytes :=
  if sphincsSecretKey.isEmpty then .error "SPHINCS+ secret key cannot be empty"
  else (schnorrkel.expandPublicKey (hashes.sha256 (vrfKeyDerivationDomain ++ sphincsSecretKey))).mapError
    fun error => s!"VRF seed: {error}"

def vrfInput (height : U64) (prevBlockHash : String) : Bytes := vrfInputDomain ++ le64 height ++ utf8 prevBlockHash

/-- The randomness of the next slot, from a proof that verifies. -/
def verifyVrfProof (vrfPublicKey : Bytes) (height : U64) (prevBlockHash : String) (output proof : Bytes) :
    Except String Hash32 := do
  (schnorrkel.publicKey vrfPublicKey).mapError fun error => s!"Invalid VRF public key: {error}"
  (schnorrkel.preOut output).mapError fun error => s!"Invalid VRF output: {error}"
  (schnorrkel.proof proof).mapError fun error => s!"Invalid VRF proof: {error}"
  let made ← (schnorrkel.vrfVerify vrfPublicKey (utf8 "BLEEP_POS_VRF_V1") (vrfInput height prevBlockHash) output
    proof).mapError fun error => s!"VRF proof verification failed: {error}"
  return hashes.sha256 (vrfOutputDomain ++ made.toList)

def genesisRandomness (genesisHash : String) : Hash32 := hashes.sha256 (genesisRandomnessDomain ++ utf8 genesisHash)

def decodeVrfStarkEnvelope (envelope : Bytes) : Except String (Bytes × Bytes × Bytes) :=
  if ¬vrfStarkEnvelopeMagic.isPrefixOf envelope ∨ envelope.length ≤ vrfStarkEnvelopeHeaderLen then
    .error "Missing or truncated VRF/STARK proof envelope"
  else
    let outputStart := vrfStarkEnvelopeMagic.length
    let proofStart := outputStart + vrfOutputLen
    let starkStart := proofStart + vrfProofLen
    .ok ((envelope.drop outputStart).take vrfOutputLen, (envelope.drop proofStart).take vrfProofLen,
      envelope.drop starkStart)

def verifyBlockVrf (block : Block) (vrfPublicKey : Bytes) : Except String Hash32 :=
  match block.vrfStarkProofParts with
  | none => .error s!"Block {block.index.toNat} is missing its VRF proof envelope"
  | some (output, proof, _) => verifyVrfProof hashes schnorrkel vrfPublicKey block.index block.previousHash output proof

def randomnessFromParentBlock (parent : Block) (parentVrfPublicKey : Option Bytes) : Except String Hash32 :=
  if parent.index = 0 then .ok (genesisRandomness hashes (parent.computeHash hashes.sha3))
  else if parent.protocolVersion < 5 then .ok (genesisRandomness hashes (parent.computeHash hashes.sha3))
  else
    match parentVrfPublicKey with
    | none => .error s!"VRF public key for parent block {parent.index.toNat} is unavailable"
    | some publicKey => verifyBlockVrf hashes schnorrkel parent publicKey

end Vrf

section Envelope
variable (sha3 : Bytes → Hash32) (output : Vector UInt8 vrfOutputLen) (proof : Vector UInt8 vrfProofLen) (stark : Bytes)

theorem decode_encode_envelope (present : stark ≠ []) :
    decodeVrfStarkEnvelope (encodeVrfStarkEnvelope output.toList proof.toList stark) =
      .ok (output.toList, proof.toList, stark) := by
  generalize sealed : encodeVrfStarkEnvelope output.toList proof.toList stark = envelope
  rw [encodeVrfStarkEnvelope, List.append_assoc, List.append_assoc] at sealed
  have opened : envelope.drop vrfStarkEnvelopeMagic.length = output.toList ++ (proof.toList ++ stark) := by
    rw [← sealed, List.drop_left]
  have rest : envelope.drop (vrfStarkEnvelopeMagic.length + vrfOutputLen) = proof.toList ++ stark := by
    rw [← List.drop_drop, opened, List.drop_left' output.length_toList]
  have tail : envelope.drop vrfStarkEnvelopeHeaderLen = stark := by
    rw [vrfStarkEnvelopeHeaderLen, ← List.drop_drop, rest, List.drop_left' proof.length_toList]
  have accepted : ¬(¬vrfStarkEnvelopeMagic.isPrefixOf envelope ∨ envelope.length ≤ vrfStarkEnvelopeHeaderLen) := by
    rintro (unmarked | short)
    · exact unmarked (List.isPrefixOf_iff_prefix.mpr (sealed ▸ List.prefix_append _ _))
    · exact present (tail.symm.trans (List.drop_eq_nil_of_le short))
  rw [decodeVrfStarkEnvelope, if_neg accepted]
  simp only [opened, rest, List.take_left' output.length_toList, List.take_left' proof.length_toList]
  exact congrArg (fun stark => Except.ok (output.toList, proof.toList, stark)) tail

theorem computeHashBytes_envelope (block : Block) :
    ({ block with zkProof := encodeVrfStarkEnvelope output.toList proof.toList stark } : Block).computeHashBytes sha3 =
      ({ block with zkProof := encodeVrfStarkEnvelope output.toList proof.toList [] } : Block).computeHashBytes sha3 := by
  have committed (rest : Bytes) : BlockHeader.committedVrfOutput { block.toBlockHeader with
      zkProof := encodeVrfStarkEnvelope output.toList proof.toList rest } = output.toList :=
    BlockHeader.committedVrfOutput_of_envelope (List.append_assoc ..) output.length_toList
  simp only [Block.computeHashBytes, BlockHeader.canonicalHashPreimage, committed]

/-- The two decoders of the envelope agree on all bytes and give back what was
encoded. A block keeps its hash when the proof is attached, so that the
signature that was made before stays as good as it was. -/
theorem envelope_round_trip (sha3 : Bytes → Hash32) (sphincs : Sphincs) (block : Block)
    (output : Vector UInt8 vrfOutputLen) (proof : Vector UInt8 vrfProofLen) (stark : Bytes) :
    let envelope := encodeVrfStarkEnvelope output.toList proof.toList
    (stark ≠ [] → decodeVrfStarkEnvelope (envelope stark) = .ok (output.toList, proof.toList, stark) ∧
      ({ block with zkProof := envelope stark } : Block).vrfStarkProofParts =
        some (output.toList, proof.toList, stark)) ∧
    (∀ bytes, decodeVrfStarkEnvelope bytes = okOr ({ block with zkProof := bytes } : Block).vrfStarkProofParts
      "Missing or truncated VRF/STARK proof envelope") ∧
    ({ block with zkProof := envelope stark } : Block).computeHash sha3 =
      ({ block with zkProof := envelope [] } : Block).computeHash sha3 ∧
    ∀ sk pk signed publicKey, ({ block with zkProof := envelope [] } : Block).signBlockWithPk sha3 sphincs sk pk = .ok signed →
      ({ signed with zkProof := envelope stark } : Block).verifySignature sha3 sphincs publicKey =
        signed.verifySignature sha3 sphincs publicKey := by
  intro envelope
  have agree (bytes : Bytes) : decodeVrfStarkEnvelope bytes =
      okOr ({ block with zkProof := bytes } : Block).vrfStarkProofParts
        "Missing or truncated VRF/STARK proof envelope" := by
    unfold decodeVrfStarkEnvelope Block.vrfStarkProofParts
    split <;> rfl
  refine ⟨fun present => ?_, agree, ?_, fun sk pk signed publicKey done => ?_⟩
  · have decoded := decode_encode_envelope output proof stark present
    exact ⟨decoded, ok_of_okOr ((agree _).symm.trans decoded)⟩
  · exact congrArg (fun hash : Hash32 => Hex.encode hash.toList) (computeHashBytes_envelope sha3 output proof stark block)
  · have hash := computeHashBytes_envelope sha3 output proof stark signed
    obtain rfl := Block.signBlockWithPk_ok sha3 sphincs done
    unfold Block.verifySignature
    rw [hash]

end Envelope

section Selection
variable (sha256 : Bytes → Hash32) (schnorrkel : Schnorrkel)

def computeSeed (height : U64) (previousRandomness : Hash32) : U64 :=
  BitVec.ofNat 64 (fromLeBytes
    ((sha256 (proposerSelectionDomain ++ le64 height ++ previousRandomness.toList)).toList.take 8))

def totalStake (active : List ValidatorStake) : Option U64 :=
  active.foldlM (fun total validator => checkedAdd total validator.stake) 0

def checkVrfKeys : List ValidatorStake → Except SelectionError Unit
  | [] => .ok ()
  | validator :: rest =>
    match schnorrkel.publicKey validator.vrfPublicKey with
    | .error error =>
      .error (.proposalRejected s!"Validator {validator.id} has an invalid VRF public key: {error}")
    | .ok _ => checkVrfKeys rest

/-- The `find` whose closure adds up the stakes. -/
def findSelected (selection accumulated : U64) : List ValidatorStake → Option ValidatorStake
  | [] => none
  | validator :: rest =>
    let accumulated := accumulated + validator.stake
    if selection < accumulated then some validator else findSelected selection accumulated rest

def selectProposer (height : U64) (validators : List ValidatorStake) (previousRandomness : Hash32) :
    Except SelectionError String :=
  match validators.filter canParticipate with
  | [] => .error .insufficientValidatorParticipation
  | first :: rest =>
    match totalStake (first :: rest) with
    | none => .error (.proposalRejected "Total validator stake overflow")
    | some total =>
      if total = 0 then .error (.proposalRejected "Total validator stake is zero")
      else
        match checkVrfKeys schnorrkel (first :: rest) with
        | .error error => .error error
        | .ok _ =>
          let selection := computeSeed sha256 height previousRandomness % total
          match findSelected selection 0 (first :: rest) with
          | some validator => .ok validator.id
          | none => .ok first.id

end Selection

/-- The stake as a number, by which the validators are weighted. -/
def weight (validator : ValidatorStake) : Nat := validator.stake.toNat

section Selected
variable {sha256 : Bytes → Hash32} {schnorrkel : Schnorrkel} {active : List ValidatorStake}

theorem totalStake_eq_some {total} :
    totalStake active = some total ↔ WeightedChoice.total weight active = total.toNat :=
  foldlM_checkedAdd_eq_some

/-- Without an overflow the accumulating search is the choice by intervals. -/
theorem findSelected_eq_pick {selection accumulated} (passed : accumulated ≤ selection)
    (fits : accumulated.toNat + total weight active < 2 ^ 64) :
    findSelected selection accumulated active =
      pick weight (selection.toNat - accumulated.toNat) active := by
  induction active generalizing accumulated with
  | nil => rfl
  | cons validator active ih =>
    rw [total_cons, weight] at fits
    have sum : (accumulated + validator.stake).toNat = accumulated.toNat + validator.stake.toNat := by
      rw [toNat_add, Nat.mod_eq_of_lt (by omega)]
    rw [le_def] at passed
    rw [findSelected, pick, weight]
    by_cases inside : selection < accumulated + validator.stake
    · have point := lt_def.mp inside
      rw [if_pos inside, if_pos (by omega)]
    · have reached : accumulated + validator.stake ≤ selection := BitVec.not_lt.mp inside
      have point := le_def.mp reached
      rw [if_neg inside, if_neg (by omega), ih reached (by omega), sum, Nat.sub_sub]

theorem checkVrfKeys_eq_ok :
    checkVrfKeys schnorrkel active = .ok () ↔
      ∀ validator ∈ active, schnorrkel.publicKey validator.vrfPublicKey = .ok () := by
  induction active with
  | nil => simp [checkVrfKeys]
  | cons validator active ih =>
    rw [checkVrfKeys, List.forall_mem_cons]
    cases parsed : schnorrkel.publicKey validator.vrfPublicKey with
    | error error => simp
    | ok value => simp [ih]

/-- What selection asks of the participating validators. -/
structure Electable (schnorrkel : Schnorrkel) (active : List ValidatorStake) : Prop where
  positive : 0 < total weight active
  fits : total weight active < 2 ^ 64
  keys : ∀ validator ∈ active, schnorrkel.publicKey validator.vrfPublicKey = .ok ()

variable {validators : List ValidatorStake}

/-- Below the total stake the search never falls through. -/
theorem Electable.finds (electable : Electable schnorrkel active) {selection}
    (below : selection.toNat < total weight active) : ∃ validator,
      findSelected selection 0 active = some validator ∧
      pick weight selection.toNat active = some validator := by
  obtain ⟨validator, picked⟩ := exists_pick below
  have start : (0 : U64).toNat + total weight active < 2 ^ 64 := by simpa using electable.fits
  exact ⟨validator, (findSelected_eq_pick (le_def.mpr (Nat.zero_le _)) start).trans picked, picked⟩

/-- The selected validator is the one in whose interval the reduced seed lies;
the fallback to the first is never taken. -/
theorem Electable.selects (electable : Electable schnorrkel (validators.filter canParticipate))
    (sha256 : Bytes → Hash32) (height : U64) (previousRandomness : Hash32) : ∃ validator,
      selectProposer sha256 schnorrkel height validators previousRandomness = .ok validator.id ∧
      WeightedChoice.pick weight ((computeSeed sha256 height previousRandomness).toNat %
        WeightedChoice.total weight (validators.filter canParticipate))
        (validators.filter canParticipate) = some validator := by
  generalize listed : validators.filter canParticipate = active at electable
  have size : (BitVec.ofNat 64 (WeightedChoice.total weight active)).toNat = WeightedChoice.total weight active := by
    rw [toNat_ofNat, Nat.mod_eq_of_lt electable.fits]
  have reduced := toNat_umod (x := computeSeed sha256 height previousRandomness)
    (y := BitVec.ofNat 64 (WeightedChoice.total weight active))
  rw [size] at reduced
  obtain ⟨validator, found, picked⟩ := electable.finds (reduced ▸ Nat.mod_lt _ electable.positive)
  refine ⟨validator, ?_, reduced ▸ picked⟩
  have nonzero : BitVec.ofNat 64 (WeightedChoice.total weight active) ≠ 0 := by
    intro zero
    rw [zero] at size
    exact absurd electable.positive (by simp [← size])
  cases active with
  | nil => exact absurd electable.positive (by simp)
  | cons first rest =>
    simp only [selectProposer, listed, totalStake_eq_some.mpr size.symm, nonzero, if_false,
      checkVrfKeys_eq_ok.mpr electable.keys, found]

/-- Selection by stake is exact: as many of the residues of the total stake fall
to a position as its validator has staked; every residue falls to one position
only, of a validator that participates with a stake, and the search finds it;
and the proposer is the one to whom the reduced seed falls. -/
theorem proposer_by_stake (sha256 : Bytes → Hash32) (schnorrkel : Schnorrkel) (validators : List ValidatorStake)
    (height : U64) (previousRandomness : Hash32) :
    let active := validators.filter canParticipate
    let total := total weight active
    (∀ slot : Nat × ValidatorStake, active[slot.1]? = some slot.2 →
      Set.ncard {residue | residue < total ∧ Holds weight active residue slot} = slot.2.stake.toNat) ∧
    (Electable schnorrkel active →
      (∀ residue : U64, residue.toNat < total → ∃ slot,
        (∀ other, Holds weight active residue.toNat other ↔ other = slot) ∧
        findSelected residue 0 active = some slot.2 ∧
        slot.2 ∈ validators ∧ slot.2.canParticipate = true ∧ slot.2.stake ≠ 0) ∧
      ∃ slot, Holds weight active ((computeSeed sha256 height previousRandomness).toNat % total) slot ∧
        selectProposer sha256 schnorrkel height validators previousRandomness = .ok slot.2.id) := by
  intro active total
  refine ⟨fun slot listed => ncard_holds listed, fun electable => ⟨fun residue below => ?_, ?_⟩⟩
  · obtain ⟨validator, found, picked⟩ := electable.finds below
    obtain ⟨i, holds⟩ := holds_of_pick picked
    obtain ⟨listed, participates⟩ := List.mem_filter.mp (mem_of_pick picked)
    refine ⟨(i, validator), fun other => ⟨fun also => also.unique holds, fun same => same ▸ holds⟩, found, listed,
      participates, fun unstaked => ?_⟩
    -- The interval of a validator without a stake is empty.
    obtain ⟨-, lower, upper⟩ := holds
    rw [weight, unstaked] at upper
    exact absurd upper (Nat.not_lt.mpr lower)
  · obtain ⟨validator, selected, picked⟩ := electable.selects sha256 height previousRandomness
    obtain ⟨i, holds⟩ := holds_of_pick picked
    exact ⟨(i, validator), holds, selected⟩

theorem Electable.of_selected {height previousRandomness id}
    (selected : selectProposer sha256 schnorrkel height validators previousRandomness = .ok id) :
    Electable schnorrkel (validators.filter canParticipate) := by
  unfold selectProposer at selected
  split at selected
  · cases selected
  rename_i first rest listed
  split at selected
  · cases selected
  rename_i total sum
  split at selected
  · cases selected
  rename_i nonzero
  split at selected
  · cases selected
  rename_i checked
  rw [totalStake_eq_some] at sum
  rw [listed]
  refine ⟨?_, sum ▸ total.isLt, checkVrfKeys_eq_ok.mp checked⟩
  rw [sum]
  exact Nat.pos_of_ne_zero fun zero => nonzero (eq_of_toNat_eq zero)

end Selected

end PoSConsensusEngine

open PoSConsensusEngine

/-- `str::eq_ignore_ascii_case`. -/
def eqIgnoreAsciiCase (left right : String) : Bool := left.toList.map Char.toLower == right.toList.map Char.toLower

/-- The hexadecimal text of the key in front of a block's signature. -/
def Block.signingKeyId (block : Block) : Option String :=
  if sphincsPkLen ≤ block.validatorSignature.length then some (Hex.encode (block.validatorSignature.take sphincsPkLen))
  else none

/-- `u64::try_from`. -/
def tryU64 (n : U128) : Option U64 := if n.toNat < 2 ^ 64 then some (n.setWidth 64) else none

/-- The stake entry that the producer derives from a registered validator. -/
def BlockProducer.validatorStake (validator : ValidatorIdentity) : ValidatorStake where
  id := validator.id
  stake := (tryU64 validator.effectiveStake).getD (BitVec.allOnes 64)
  active := true
  slashingCount := saturatingAdd (saturatingAdd validator.doubleSignCount validator.equivocationCount)
    validator.downtimeCount
  vrfPublicKey := validator.vrfPublicKey

def BlockProducer.parentVrfPublicKey (activeIdentities : List ValidatorIdentity) (parent : Block) : Option Bytes :=
  parent.signingKeyId.bind fun signingKeyId =>
    (activeIdentities.find? fun validator => eqIgnoreAsciiCase validator.signingKeyId signingKeyId).map
      ValidatorIdentity.vrfPublicKey

section Producer
variable (hashes : Hashes) (schnorrkel : Schnorrkel) (hexText : Hex.FromHexError → String)
  (syncCommittee : List (String × Bytes) → Except String Unit) (config : ProducerConfig) (validatorId : String)
  (myStake : U64)

def BlockProducer.committeeKey (validator : ValidatorIdentity) : Except String (String × Bytes) :=
  match Hex.decode validator.signingKeyId with
  | .error error => .error s!"Invalid signing key for active validator {validator.id}: {hexText error}"
  | .ok publicKey => .ok (validator.id, publicKey)

/-- The part of `produce_one_inner` that decides whether the slot after the tip
is the node's own: `none` when it is another validator's, else the keys of the
epoch. What the finality engine does with the committee is a parameter. -/
def BlockProducer.claimSlot (registry : ValidatorRegistry) (parent : Block) : Except String (Option (List Bytes)) := do
  let nextHeight := parent.index + 1
  let activeIdentities := registry.participants
  let activeValidators := activeIdentities.map validatorStake
  let previousRandomness ←
    (randomnessFromParentBlock hashes schnorrkel parent
      (parentVrfPublicKey activeIdentities parent)).mapError
      fun error => s!"Cannot derive proposer randomness at height {nextHeight.toNat}: {error}"
  let localVrfPublicKey ← deriveVrfPublicKey hashes schnorrkel config.validatorSk
  match activeIdentities.find? fun validator => validator.id == validatorId with
  | none => .error s!"Configured proposer {validatorId} is not in the active validator registry"
  | some localIdentity =>
    if localIdentity.vrfPublicKey ≠ localVrfPublicKey then
      .error s!"Configured proposer {validatorId} VRF key does not match the validator registry"
    else if activeValidators.isEmpty then .error "Cannot commit without an active validator"
    else do
      let committeeKeys ← activeIdentities.mapM (committeeKey hexText)
      syncCommittee committeeKeys
      let selected ←
        (selectProposer hashes.sha256 schnorrkel nextHeight activeValidators
          previousRandomness).mapError
          fun error => s!"Proposer selection failed at height {nextHeight.toNat}: {error.display}"
      if selected ≠ validatorId then .ok none
      else if (registry.validators.lookup selected).any fun validator =>
          validator.canParticipate && decide (validator.stake = myStake.setWidth 128)
            && eqIgnoreAsciiCase validator.signingKeyId (Hex.encode config.validatorPk) then
        .ok (some (committeeKeys.map Prod.snd))
      else .error s!"Selected proposer {selected} does not match the configured key and stake"

end Producer

/-- The failures of `verify_pos_vrf_block`. -/
inductive PosVrfError
  | notExtending
  | missingSigningKey
  | signerNotActive
  | parentMissingSigningKey
  | parentKeyNotRegistered
  | randomness (text : String)
  | stakeExceeds (id : String)
  | selection (error : SelectionError)
  | wrongProposer (proposer selected : String)
  | vrf (text : String)
  deriving DecidableEq

section Verifier
variable (hashes : Hashes) (schnorrkel : Schnorrkel)

/-- The stake entry that the verifier derives from a registered validator. -/
def verifiedStake (validator : ValidatorIdentity) : Except PosVrfError ValidatorStake := do
  let stake ← okOr (tryU64 validator.effectiveStake) (.stakeExceeds validator.id)
  return {
    id := validator.id
    stake := stake
    active := true
    slashingCount := 0
    vrfPublicKey := validator.vrfPublicKey }

def registeredParentKey (parent : Block) (activeValidators : List ValidatorIdentity) :
    Except PosVrfError (Option Bytes) :=
  if 5 ≤ parent.protocolVersion then do
    let signingKeyId ← okOr parent.signingKeyId .parentMissingSigningKey
    let signer ← okOr (activeValidators.find? fun validator => eqIgnoreAsciiCase validator.signingKeyId signingKeyId)
      .parentKeyNotRegistered
    return some signer.vrfPublicKey
  else .ok none

def verifyPosVrfBlock (block parent : Block) (activeValidators : List ValidatorIdentity) : Except PosVrfError Unit :=
  if block.index ≠ saturatingAdd parent.index 1 ∨ block.previousHash ≠ parent.computeHash hashes.sha3 then
    .error .notExtending
  else do
    let proposerSigningKeyId ← okOr block.signingKeyId .missingSigningKey
    let proposer ← okOr (activeValidators.find? fun validator =>
      validator.canParticipate && eqIgnoreAsciiCase validator.signingKeyId proposerSigningKeyId) .signerNotActive
    let parentKey ← registeredParentKey parent activeValidators
    let previousRandomness ←
      (randomnessFromParentBlock hashes schnorrkel parent parentKey).mapError .randomness
    let stakes ← (activeValidators.filter ValidatorIdentity.canParticipate).mapM verifiedStake
    let selected ←
      (selectProposer hashes.sha256 schnorrkel block.index stakes previousRandomness).mapError
        .selection
    if selected ≠ proposer.id then .error (.wrongProposer proposer.id selected)
    else
      ((verifyBlockVrf hashes schnorrkel block proposer.vrfPublicKey).mapError .vrf).map fun _ => ()

end Verifier

end Bleep
