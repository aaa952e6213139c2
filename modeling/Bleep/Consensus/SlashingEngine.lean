import Bleep.Consensus.ValidatorRegistry
import Bleep.Pbft.Engine

namespace Bleep

open Words HashTable Results Hex List Vector

def signedBlockSignatureLen : Nat := sphincsPkLen + sphincsSigLen
def equivocationDomain : Bytes := utf8 "BLEEP:CONSENSUS:VOTE:V1\x00"
def doubleSignDomain : Bytes := utf8 "BLEEP_SLASH_DOUBLE_SIGN_V1:"
def penaltyBpsDenominator : U128 := 10000

inductive SlashingEvidence
  | doubleSigning (validatorId : String) (height : U64) (blockHash1 blockHash2 : String)
      (signature1 signature2 : Bytes)
  | equivocation (validatorId : String) (height : U64) (vote1 vote2 signature1 signature2 : Bytes)
      (timestamp1 timestamp2 : U64)
  | downtime (validatorId : String) (missedBlocks totalBlocksInEpoch : U64)
  deriving DecidableEq

open SlashingEvidence

def hasValidSignatureLength (signature : Bytes) : Bool :=
  decide (signature.length = sphincsSigLen ∨ signature.length = signedBlockSignatureLen)

namespace SlashingEvidence

def validatorId : SlashingEvidence → String
  | doubleSigning validatorId .. => validatorId
  | equivocation validatorId .. => validatorId
  | downtime validatorId .. => validatorId

def isWellFormed : SlashingEvidence → Except String Unit
  | doubleSigning validatorId height blockHash1 blockHash2 signature1 signature2 =>
    if validatorId.isEmpty then .error "validator_id cannot be empty"
    else if height = 0 then .error "Height must be > 0"
    else if (utf8 blockHash1).length ≠ 64 ∨ (utf8 blockHash2).length ≠ 64 then
      .error "Block hashes must each be 32 bytes of hexadecimal data"
    else do
      let decodedHash1 ← (Hex.decode blockHash1).mapError fun _ => "Block hash must be valid hexadecimal"
      let decodedHash2 ← (Hex.decode blockHash2).mapError fun _ => "Block hash must be valid hexadecimal"
      if decodedHash1.length ≠ 32 ∨ decodedHash2.length ≠ 32 then .error "Block hashes must each be 32 bytes"
      else if decodedHash1 = decodedHash2 then .error "double-signing requires two distinct block hashes"
      else if hasValidSignatureLength signature1 = false ∨ hasValidSignatureLength signature2 = false then
        .error "Double-signing evidence has an invalid SPHINCS+ signature length"
      else return ()
  | equivocation validatorId height vote1 vote2 signature1 signature2 timestamp1 timestamp2 =>
    if validatorId.isEmpty then .error "validator_id cannot be empty"
    else if height = 0 then .error "Height must be > 0"
    else if vote1.length ≠ 32 ∨ vote2.length ≠ 32 then
      .error "Equivocation votes must each be 32-byte block hashes"
    else if vote1 = vote2 then .error "Block hashes must differ for equivocation"
    else if timestamp1 = timestamp2 then .error "Vote timestamps must differ for equivocation"
    else if hasValidSignatureLength signature1 = false ∨ hasValidSignatureLength signature2 = false then
      .error "Equivocation evidence has an invalid SPHINCS+ signature length"
    else .ok ()
  | downtime validatorId missedBlocks totalBlocksInEpoch =>
    if validatorId.isEmpty then .error "validator_id cannot be empty"
    else if missedBlocks = 0 then .error "missed_blocks must be > 0"
    else if totalBlocksInEpoch = 0 then .error "total_blocks_in_epoch must be > 0"
    else if totalBlocksInEpoch < missedBlocks then .error "missed_blocks cannot exceed total_blocks_in_epoch"
    else .ok ()

/-- The second half of the key under which evidence is remembered. -/
def keyHeight (currentEpoch : U64) : SlashingEvidence → U64
  | doubleSigning _ height .. => height
  | equivocation _ height .. => height
  | downtime .. => currentEpoch

def evidenceType : SlashingEvidence → String
  | doubleSigning .. => "DOUBLE_SIGNING"
  | equivocation .. => "EQUIVOCATION"
  | downtime .. => "DOWNTIME"

def blockHeight : SlashingEvidence → U64
  | doubleSigning _ height .. => height
  | equivocation _ height .. => height
  | downtime .. => 0

end SlashingEvidence

structure SlashingPenalty where
  doubleSigningPenaltyBps : U32
  equivocationPenaltyBps : U32
  downtimePenaltyPerBlock : Float

def SlashingPenalty.default : SlashingPenalty where
  doubleSigningPenaltyBps := 10000
  equivocationPenaltyBps := 2500
  downtimePenaltyPerBlock := 0.001

structure SlashingEvent where
  evidenceType : String
  validatorId : String
  blockHeight : U64
  slashAmount : U128
  processedAtEpoch : U64
  timestamp : U64
  deriving DecidableEq

structure SlashingEngine where
  penalties : SlashingPenalty
  slashingHistory : List SlashingEvent
  processedEvidence : HashMap (String × U64) SlashingEvidence

open SlashingEngine

def doubleSignMessage (height : U64) (blockHash : Hash32) : Bytes :=
  doubleSignDomain ++ (le64 height).reverse ++ blockHash.toList

def equivocationVoteMessage (validatorId : String) (height timestamp : U64) (vote : Bytes) : Bytes :=
  equivocationDomain ++ lengthPrefixed validatorId ++ le64 height ++ le64 timestamp ++ Codec.lengthPrefixed 8 vote

def decodeBlockHash (blockHash : String) : Except String Hash32 := do
  let decoded ← (Hex.decode blockHash).mapError fun _ => "block hash is not valid hexadecimal"
  if size : decoded.length = 32 then return ⟨decoded.toArray, size⟩
  else .error "block hash must be 32 bytes"

/-- The `signature_bytes` of `verify_validator_signature`. -/
def signatureBytes (signature expectedPublicKey : Bytes) : Except String Bytes :=
  if signature.length = sphincsSigLen then .ok signature
  else if signature.length = signedBlockSignatureLen then
    if signature.take sphincsPkLen ≠ expectedPublicKey then
      .error "signature public key does not match the registered validator key"
    else .ok (signature.drop sphincsPkLen)
  else .error "invalid SPHINCS+ signature length"

section Signatures
variable (sphincs : Sphincs)

def verifyValidatorSignature (signature message expectedPublicKey : Bytes) : Except String Unit := do
  let signatureBytes ← signatureBytes signature expectedPublicKey
  (sphincs.detachedSignature signatureBytes).mapError fun error => s!"Invalid SPHINCS+ signature: {error}"
  if sphincs.verifyDetachedSignature signatureBytes message expectedPublicKey then return ()
  else .error "SPHINCS+ signature verification failed: InvalidSignature"

def verifyBlockHash (height : U64) (blockHash : Hash32) (signature expectedPublicKey : Bytes) : Except String Unit :=
  verifyValidatorSignature sphincs signature (doubleSignMessage height blockHash) expectedPublicKey

def verifyEvidenceSignatures (evidence : SlashingEvidence) (validator : ValidatorIdentity)
    (canonicalChainContains : U64 → Hash32 → Bool) : Except String Unit := do
  let publicKeyBytes ← (Hex.decode validator.signingKeyId).mapError
    fun _ => s!"Validator {validator.id} has an invalid signing key ID"
  if publicKeyBytes.length ≠ sphincsPkLen then
    .error s!"Validator {validator.id} signing key must be a {sphincsPkLen}-byte SPHINCS+ public key"
  else do
    (sphincs.publicKey publicKeyBytes).mapError fun error => s!"Invalid SPHINCS+ public key for {validator.id}: {error}"
    match evidence with
    | .doubleSigning _ height blockHash1 blockHash2 signature1 signature2 =>
      let decodedHash1 ← decodeBlockHash blockHash1
      let decodedHash2 ← decodeBlockHash blockHash2
      (verifyBlockHash sphincs height decodedHash1 signature1 publicKeyBytes).mapError
        fun error => s!"Invalid first double-signing proof at height {height.toNat}: {error}"
      (verifyBlockHash sphincs height decodedHash2 signature2 publicKeyBytes).mapError
        fun error => s!"Invalid second double-signing proof at height {height.toNat}: {error}"
      if canonicalChainContains height decodedHash1 = false ∧ canonicalChainContains height decodedHash2 = false then
        .error "neither block is in the canonical chain at this height"
      else return ()
    | .equivocation validatorId height vote1 vote2 signature1 signature2 timestamp1 timestamp2 =>
      (verifyValidatorSignature sphincs signature1 (equivocationVoteMessage validatorId height timestamp1 vote1)
        publicKeyBytes).mapError fun error => s!"Invalid first equivocation proof: {error}"
      (verifyValidatorSignature sphincs signature2 (equivocationVoteMessage validatorId height timestamp2 vote2)
        publicKeyBytes).mapError fun error => s!"Invalid second equivocation proof: {error}"
    | .downtime .. => .error "Downtime evidence cannot be authenticated from caller-supplied counters"

end Signatures

/-- The cast `as u128` of an `f64`: it truncates, saturates at both ends and
takes a NaN to 0. -/
def floatToU128 (value : Float) : U128 :=
  if value.isNaN || decide (value ≤ 0.0) then 0
  else if Float.scaleB 1.0 128 ≤ value then BitVec.allOnes 128
  else
    let (fraction, exponent) := value.frExp
    let digits := (fraction.scaleB 53).toUInt64.toNat
    BitVec.ofNat 128 (if 53 ≤ exponent then digits * 2 ^ (exponent - 53).toNat else digits / 2 ^ (53 - exponent).toNat)

namespace SlashingEngine

def withPenalties (penalties : SlashingPenalty) : SlashingEngine := ⟨penalties, [], ∅⟩

def new : SlashingEngine := withPenalties .default

variable (engine : SlashingEngine)

variable (evidence : SlashingEvidence)

/-- The match of `calculate_slash_amount`. -/
def penaltyFor (validator : ValidatorIdentity) : Except String U128 :=
  match evidence with
  | .doubleSigning .. => do
    let product ← okOr (checkedMul validator.stake (engine.penalties.doubleSigningPenaltyBps.setWidth 128))
      "Double-signing penalty calculation overflowed"
    return product / penaltyBpsDenominator
  | .equivocation .. => do
    let product ← okOr (checkedMul validator.stake (engine.penalties.equivocationPenaltyBps.setWidth 128))
      "Equivocation penalty calculation overflowed"
    return minimum (product / penaltyBpsDenominator) validator.stake
  | .downtime _ missedBlocks totalBlocksInEpoch =>
    let missedRatio := Float.ofNat missedBlocks.toNat / Float.ofNat totalBlocksInEpoch.toNat
    let penaltyPercentage := missedRatio * engine.penalties.downtimePenaltyPerBlock
    .ok (minimum (floatToU128 (Float.ofNat validator.stake.toNat * penaltyPercentage)) validator.stake)

def calculateSlashAmount (validator : ValidatorIdentity) : Except String U128 := do
  let slashAmount ← engine.penaltyFor evidence validator
  if slashAmount = 0 then .error "Calculated slash amount is zero" else return slashAmount

def slashRegistry (registry : ValidatorRegistry) (slashAmount : U128) :
    Except String ValidatorRegistry :=
  match evidence with
  | .doubleSigning validatorId .. => registry.slashValidatorDoubleSign validatorId slashAmount
  | .equivocation validatorId .. => registry.slashValidatorEquivocation validatorId slashAmount
  | .downtime validatorId .. => registry.recordValidatorDowntime validatorId slashAmount

/-- The engine and the registry are changed only when nothing has failed, so
both come back with the event. -/
def processEvidenceWithCanonicalChain (sphincs : Sphincs) (evidence : SlashingEvidence)
    (registry : ValidatorRegistry) (currentEpoch timestamp : U64) (canonicalChainContains : U64 → Hash32 → Bool) :
    Except String (SlashingEvent × SlashingEngine × ValidatorRegistry) := do
  evidence.isWellFormed
  let validatorId := evidence.validatorId
  let evidenceKey := (validatorId, evidence.keyHeight currentEpoch)
  if (engine.processedEvidence.lookup evidenceKey).isSome then .error "Evidence already processed"
  else do
    let validator ← okOr (registry.validators.lookup validatorId) s!"Validator {validatorId} not found"
    verifyEvidenceSignatures sphincs evidence validator canonicalChainContains
    let slashAmount ← engine.calculateSlashAmount evidence validator
    let slashed ← slashRegistry evidence registry slashAmount
    let event : SlashingEvent := {
      evidenceType := evidence.evidenceType
      validatorId := validatorId
      blockHeight := evidence.blockHeight
      slashAmount := slashAmount
      processedAtEpoch := currentEpoch
      timestamp := timestamp }
    return (event, { engine with
      slashingHistory := engine.slashingHistory ++ [event]
      processedEvidence := engine.processedEvidence.insert evidenceKey evidence }, slashed)

def totalSlashed : U128 := (engine.slashingHistory.map SlashingEvent.slashAmount).foldl (· + ·) 0

end SlashingEngine

variable {messages : Set Bytes}

section Rejection
variable {sphincs : Sphincs} {signature message key sk : Bytes} {evidence : SlashingEvidence}
  {validator : ValidatorIdentity} {canonical : U64 → Hash32 → Bool}

/-- The signature of a validator, with its key in front or without. -/
def Carries (signature key raw : Bytes) : Prop := signature = raw ∨ signature = key ++ raw

/-- A detached signature of the right size can be read off in one way only. -/
theorem Carries.unique {raw raw'} (carries : Carries signature key raw) (carries' : Carries signature key raw')
    (size : raw.length = sphincsSigLen) (size' : raw'.length = sphincsSigLen) (keySize : key.length = sphincsPkLen) :
    raw = raw' := by
  have differ : sphincsPkLen ≠ 0 := by decide
  rcases carries with rfl | rfl
  · rcases carries' with same | same
    · exact same
    · have lengths := congrArg List.length same
      rw [length_append] at lengths
      omega
  · rcases carries' with same | same
    · have lengths := congrArg List.length same
      rw [length_append] at lengths
      omega
    · exact append_cancel_left same

theorem signatureBytes_ok {raw} (read : signatureBytes signature key = .ok raw) :
    Carries signature key raw ∧ raw.length = sphincsSigLen := by
  unfold signatureBytes at read
  split at read
  · rename_i size
    cases read
    exact ⟨.inl rfl, size⟩
  split at read
  · rename_i size
    split at read
    · cases read
    rename_i own
    cases read
    refine ⟨.inr ?_, ?_⟩
    · rw [← not_not.mp own, take_append_drop]
    · rw [length_drop, size]
      rfl
  · cases read

/-- What SPHINCS+ promises about the signatures of a key pair on these
messages: they have the fixed size, and one made for a message is not one for
another. -/
structure Sphincs.Binds (sphincs : Sphincs) (sk pk : Bytes) (messages : Set Bytes) : Prop where
  size : ∀ message ∈ messages, (sphincs.detachedSign message sk).length = sphincsSigLen
  binds : ∀ message ∈ messages, ∀ message' ∈ messages, message ≠ message' →
    sphincs.verifyDetachedSignature (sphincs.detachedSign message sk) message' pk = false

/-- What was signed for one message does not pass as a signature of another. -/
theorem Sphincs.Binds.unverified (binding : sphincs.Binds sk key messages) {signed}
    (listed : signed ∈ messages) (listed' : message ∈ messages) (differ : signed ≠ message)
    (keySize : key.length = sphincsPkLen) (carries : Carries signature key (sphincs.detachedSign signed sk)) :
    verifyValidatorSignature sphincs signature message key ≠ .ok () := by
  intro verified
  obtain ⟨raw, read, verified⟩ := ok_of_bind verified
  obtain ⟨_, _, verified⟩ := ok_of_bind verified
  obtain ⟨carried, size⟩ := signatureBytes_ok read
  rw [carried.unique carries size (binding.size signed listed) keySize,
    binding.binds signed listed message listed' differ] at verified
  cases verified

variable {registry : ValidatorRegistry} {engine : SlashingEngine}
  {currentEpoch timestamp height timestamp1 timestamp2 : U64}
  {id blockHash1 blockHash2 : String} {signature1 signature2 vote1 vote2 pk : Bytes}

/-- Accepted evidence has passed the check of its signatures. -/
theorem SlashingEngine.processEvidence_ok {result}
    (done : engine.processEvidenceWithCanonicalChain sphincs evidence registry currentEpoch timestamp canonical =
      .ok result) :
    ∃ validator, registry.validators.lookup evidence.validatorId = some validator ∧
      verifyEvidenceSignatures sphincs evidence validator canonical = .ok () := by
  obtain ⟨_, -, done⟩ := ok_of_bind done
  dsimp only at done
  split at done
  · cases done
  obtain ⟨validator, found, done⟩ := ok_of_bind done
  obtain ⟨_, verified, _⟩ := ok_of_bind done
  exact ⟨validator, ok_of_okOr found, verified⟩

theorem verifyEvidenceSignatures_doubleSigning (registered : decode validator.signingKeyId = .ok pk)
    (verified : verifyEvidenceSignatures sphincs
      (.doubleSigning id height blockHash1 blockHash2 signature1 signature2) validator canonical = .ok ()) :
    pk.length = sphincsPkLen ∧ ∃ hash1, decodeBlockHash blockHash1 = .ok hash1 ∧
      verifyValidatorSignature sphincs signature1 (doubleSignMessage height hash1) pk = .ok () := by
  obtain ⟨key, decoded, verified⟩ := ok_of_bind verified
  cases registered.symm.trans (ok_of_mapError decoded)
  split at verified
  · cases verified
  rename_i size
  obtain ⟨_, _, verified⟩ := ok_of_bind verified
  obtain ⟨hash1, first, verified⟩ := ok_of_bind verified
  obtain ⟨hash2, second, verified⟩ := ok_of_bind verified
  obtain ⟨_, signed, _⟩ := ok_of_bind verified
  exact ⟨not_not.mp size, hash1, first, ok_of_mapError signed⟩

theorem verifyEvidenceSignatures_equivocation (registered : decode validator.signingKeyId = .ok pk)
    (verified : verifyEvidenceSignatures sphincs
      (.equivocation id height vote1 vote2 signature1 signature2 timestamp1 timestamp2) validator canonical = .ok ()) :
    pk.length = sphincsPkLen ∧
      verifyValidatorSignature sphincs signature1 (equivocationVoteMessage id height timestamp1 vote1) pk = .ok () := by
  obtain ⟨key, decoded, verified⟩ := ok_of_bind verified
  cases registered.symm.trans (ok_of_mapError decoded)
  split at verified
  · cases verified
  rename_i size
  obtain ⟨_, _, verified⟩ := ok_of_bind verified
  obtain ⟨_, signed, _⟩ := ok_of_bind verified
  exact ⟨not_not.mp size, ok_of_mapError signed⟩

variable {sha3 : Bytes → Hash32} {block signed : Block}

theorem decodeBlockHash_encode (hash : Hash32) : decodeBlockHash (encode hash.toList) = .ok hash := by
  rw [decodeBlockHash, decode_encode]
  exact dif_pos length_toList

theorem doubleSignMessage_length (height : U64) (hash : Hash32) : (doubleSignMessage height hash).length = 67 := by
  have domain : doubleSignDomain.length = 27 := rfl
  simp [doubleSignMessage, le64_length, domain]

/-- The signature of a block is over its bare hash, which is shorter than what
the evidence is checked against. -/
theorem computeHashBytes_ne_doubleSignMessage (hash : Hash32) :
    (block.computeHashBytes sha3).toList ≠ doubleSignMessage height hash := by
  intro same
  have lengths := congrArg List.length same
  rw [doubleSignMessage_length, length_toList] at lengths
  omega

theorem pbftVoteMessage_take (phase : PbftPhase) (height : U64) (blockHash id : String) :
    (pbftVoteMessage phase height blockHash id).take 7 = utf8 "BLEEP:P" := rfl

theorem equivocationVoteMessage_take (id : String) (height timestamp : U64) (vote : Bytes) :
    (equivocationVoteMessage id height timestamp vote).take 7 = utf8 "BLEEP:C" := rfl

section Registered
variable (found : registry.validators.lookup id = some validator)
  (registered : Hex.decode validator.signingKeyId = .ok pk)
include found registered

theorem equivocation_rejected {phase blockHash voted}
    (carries : Carries signature1 pk (sphincs.detachedSign (pbftVoteMessage phase voted blockHash id) sk))
    (binding : sphincs.Binds sk pk {pbftVoteMessage phase voted blockHash id,
      equivocationVoteMessage id height timestamp1 vote1}) :
    ∃ text, engine.processEvidenceWithCanonicalChain sphincs (.equivocation id height vote1 vote2 signature1 signature2
      timestamp1 timestamp2) registry currentEpoch timestamp canonical = .error text := by
  cases done : engine.processEvidenceWithCanonicalChain sphincs (.equivocation id height vote1 vote2 signature1
    signature2 timestamp1 timestamp2) registry currentEpoch timestamp canonical with
  | error text => exact ⟨text, rfl⟩
  | ok result =>
    obtain ⟨owner, owned, verified⟩ := processEvidence_ok done
    cases found.symm.trans owned
    obtain ⟨size, accepted⟩ := verifyEvidenceSignatures_equivocation registered verified
    refine absurd accepted (binding.unverified (by simp) (by simp) (fun same => ?_) size carries)
    have tags := congrArg (List.take 7) same
    rw [pbftVoteMessage_take, equivocationVoteMessage_take] at tags
    exact absurd tags (by decide)

end Registered

/-- Two blocks that a registered validator signed are never accepted as double
signing, nor two votes it signed as equivocation: each signature is checked
against a message that only evidence is made of. -/
theorem real_misbehaviour_rejected {sha3 : Bytes → Hash32} {sphincs : Sphincs} {registry : ValidatorRegistry}
    {id : String} {validator : ValidatorIdentity} {sk pk : Bytes}
    (found : registry.validators.lookup id = some validator) (registered : Hex.decode validator.signingKeyId = .ok pk) :
    (∀ (height : U64) (first second signedFirst signedSecond : Block), first.index = height → second.index = height →
      first.computeHash sha3 ≠ second.computeHash sha3 →
      first.signBlockWithPk sha3 sphincs sk pk = .ok signedFirst →
      second.signBlockWithPk sha3 sphincs sk pk = .ok signedSecond →
      sphincs.Binds sk pk {(first.computeHashBytes sha3).toList, doubleSignMessage height (first.computeHashBytes sha3)} →
      ∀ (engine : SlashingEngine) (currentEpoch timestamp : U64) (canonical : U64 → Hash32 → Bool),
        ∃ text, engine.processEvidenceWithCanonicalChain sphincs (.doubleSigning id height (signedFirst.computeHash sha3)
          (signedSecond.computeHash sha3) signedFirst.validatorSignature signedSecond.validatorSignature)
          registry currentEpoch timestamp canonical = .error text) ∧
    (∀ (phase : PbftPhase) (voted : U64) (blockHash1 blockHash2 : String) (signature1 signature2 : Bytes),
      blockHash1 ≠ blockHash2 →
      Carries signature1 pk (sphincs.detachedSign (pbftVoteMessage phase voted blockHash1 id) sk) →
      Carries signature2 pk (sphincs.detachedSign (pbftVoteMessage phase voted blockHash2 id) sk) →
      ∀ (height timestamp1 timestamp2 : U64) (vote1 vote2 : Bytes),
        sphincs.Binds sk pk {pbftVoteMessage phase voted blockHash1 id,
          equivocationVoteMessage id height timestamp1 vote1} →
        ∀ (engine : SlashingEngine) (currentEpoch timestamp : U64) (canonical : U64 → Hash32 → Bool),
          ∃ text, engine.processEvidenceWithCanonicalChain sphincs (.equivocation id height vote1 vote2 signature1
            signature2 timestamp1 timestamp2) registry currentEpoch timestamp canonical = .error text) := by
  constructor
  · intro height first second signedFirst signedSecond _ _ _ signs _ binding engine currentEpoch timestamp canonical
    cases done : engine.processEvidenceWithCanonicalChain sphincs (.doubleSigning id height (signedFirst.computeHash sha3)
      (signedSecond.computeHash sha3) signedFirst.validatorSignature signedSecond.validatorSignature) registry currentEpoch
      timestamp canonical with
    | error text => exact ⟨text, rfl⟩
    | ok result =>
      obtain ⟨owner, owned, verified⟩ := processEvidence_ok done
      cases found.symm.trans owned
      obtain ⟨size, hash, decoded, accepted⟩ := verifyEvidenceSignatures_doubleSigning registered verified
      cases Block.signBlockWithPk_ok sha3 sphincs signs
      cases (decodeBlockHash_encode _).symm.trans decoded
      exact absurd accepted (binding.unverified (by simp) (.inr rfl) (computeHashBytes_ne_doubleSignMessage _) size
        (.inr rfl))
  · intro phase voted blockHash1 blockHash2 signature1 signature2 _ carries _ height timestamp1 timestamp2 vote1 vote2
      binding engine currentEpoch timestamp canonical
    exact equivocation_rejected found registered carries binding

end Rejection

section Twins

/-- The length of a message, the message, and zeros up to the size of a
signature. -/
def echoSign (message : Bytes) : Bytes :=
  (leBytes 8 message.length ++ (message ++ List.replicate sphincsSigLen 0)).take sphincsSigLen

/-- A scheme that tells short messages apart, for evaluation only. -/
def echoSphincs : Sphincs := { sizedSphincs with
  detachedSign := fun message _ => echoSign message
  verifyDetachedSignature := fun signature message _ => decide (signature = echoSign message) }

theorem echoSign_length (message : Bytes) : (echoSign message).length = sphincsSigLen := by
  rw [echoSign, length_take, length_append, length_append, length_replicate]
  omega

theorem echoSign_inj {message message'} (short : message.length + 8 ≤ sphincsSigLen)
    (short' : message'.length + 8 ≤ sphincsSigLen) (same : echoSign message = echoSign message') :
    message = message' := by
  have room : sphincsSigLen < 2 ^ 64 := by decide
  have front {message : Bytes} (short : message.length + 8 ≤ sphincsSigLen) : ∃ rest,
      echoSign message = Codec.lengthPrefixed 8 message ++ rest := by
    have fits : (leBytes 8 message.length ++ message).length ≤ sphincsSigLen := by
      rw [length_append, leBytes_length]
      omega
    refine ⟨(List.replicate sphincsSigLen 0).take (sphincsSigLen - (leBytes 8 message.length ++ message).length), ?_⟩
    rw [echoSign, ← List.append_assoc, List.take_append, List.take_of_length_le fits, Codec.lengthPrefixed]
  obtain ⟨rest, first⟩ := front short
  obtain ⟨rest', second⟩ := front short'
  rw [first, second] at same
  exact (Codec.lengthPrefixed_delimited 8 (show message.length < _ by omega) (show message'.length < _ by omega) same).1

theorem echoSphincs_binds {sk pk}
    (short : ∀ message ∈ messages, message.length + 8 ≤ sphincsSigLen) : echoSphincs.Binds sk pk messages := by
  refine ⟨fun message _ => echoSign_length message, ?_⟩
  intro message listed message' listed' differ
  exact decide_eq_false fun same => differ (echoSign_inj (short message listed) (short message' listed') same)

/-- A digest of the time stamp of a header, for evaluation only. -/
def stampHash (bytes : Bytes) : Hash32 := Vector.ofFn fun i => bytes.getD (29 + i) 0

variable (now : U64)

def twinBlock : Block where
  index := 1
  timestamp := now
  chainId := defaultChainId
  previousHash := "parent"
  merkleRoot := ""
  validatorSignature := []
  zkProof := []
  epochId := 0
  consensusMode := .posNormal
  protocolVersion := currentProtocolVersion
  shardRegistryRoot := ""
  shardId := 0
  shardStateRoot := ""
  sigCommitmentRoot := Vector.replicate 32 0
  transactions := []

def twinKey : Bytes := List.replicate sphincsPkLen 0
def twinSecret : Bytes := List.replicate (2 * sphincsPkLen) 0

def twinSigned : Block := { twinBlock now with
  validatorSignature := twinKey ++ echoSign ((twinBlock now).computeHashBytes stampHash).toList }

def twinEvidence : SlashingEvidence :=
  .doubleSigning "alice" 1 ((twinSigned 1).computeHash stampHash) ((twinSigned 2).computeHash stampHash)
    (twinSigned 1).validatorSignature (twinSigned 2).validatorSignature

theorem twinKey_length : twinKey.length = sphincsPkLen := List.length_replicate

theorem twinKey_accepted : echoSphincs.publicKey twinKey = .ok () := sizedSphincs_publicKey twinKey_length

theorem twinSigned_hash :
    (twinSigned now).computeHashBytes stampHash = (twinBlock now).computeHashBytes stampHash := rfl

theorem twinSigned_signs :
    (twinBlock now).signBlockWithPk stampHash echoSphincs twinSecret twinKey = .ok (twinSigned now) := by
  have size : twinSecret.length = 2 * sphincsPkLen := length_replicate
  have checks : echoSphincs.secretKey = sizedSphincs.secretKey := rfl
  have secret : echoSphincs.secretKey twinSecret = .ok () := by
    rw [checks, sizedSphincs_secretKey size]
  rw [Block.signBlockWithPk, if_neg (not_not.mpr twinKey_length), secret]
  rfl

theorem twinSigned_signature : (twinSigned now).validatorSignature =
    twinKey ++ echoSign ((twinBlock now).computeHashBytes stampHash).toList := rfl

theorem twinSigned_length : (twinSigned now).validatorSignature.length = signedBlockSignatureLen := by
  rw [twinSigned_signature, length_append, echoSign_length, twinKey_length, signedBlockSignatureLen]

theorem echoSign_parses {message} : echoSphincs.detachedSignature (echoSign message) = .ok () :=
  sizedSphincs_detachedSignature (echoSign_length message).le

theorem echoSphincs_verifies (message key : Bytes) :
    echoSphincs.verifyDetachedSignature (echoSign message) message key = true := decide_eq_true rfl

theorem twinSigned_verifies :
    (twinSigned now).verifySignature stampHash echoSphincs twinKey = .ok true := by
  have key : (twinSigned now).validatorSignature.take sphincsPkLen = twinKey := by
    rw [twinSigned_signature, take_left' twinKey_length]
  have rest : (twinSigned now).validatorSignature.drop sphincsPkLen =
      echoSign ((twinBlock now).computeHashBytes stampHash).toList := by
    rw [twinSigned_signature, drop_left' twinKey_length]
  have parses : echoSphincs.detachedSignature ((twinSigned now).validatorSignature.drop sphincsPkLen) = .ok () := by
    rw [rest, echoSign_parses]
  rw [Block.verifySignature_of_parses (twinSigned_length now) key twinKey_accepted parses, rest, twinSigned_hash,
    echoSphincs_verifies]

theorem twinBlock_differ : ¬((twinBlock 1).computeHashBytes stampHash).toList =
    ((twinBlock 2).computeHashBytes stampHash).toList := by
  decide +kernel

theorem twinSecret_binds (hash : Hash32) :
    echoSphincs.Binds twinSecret twinKey {hash.toList, doubleSignMessage 1 hash} := by
  refine echoSphincs_binds ?_
  rintro message (rfl | rfl)
  · rw [length_toList]
    decide
  · rw [doubleSignMessage_length]
    decide

/-- The signature on the bare hash is one on nothing else. -/
theorem twinEvidence_rejected (currentEpoch timestamp : U64) (canonical : U64 → Hash32 → Bool) :
    new.processEvidenceWithCanonicalChain echoSphincs twinEvidence (loneRegistry (encode twinKey))
      currentEpoch timestamp canonical =
      .error ("Invalid first double-signing proof at height 1: " ++
        "SPHINCS+ signature verification failed: InvalidSignature") := by
  have text (now : U64) : (utf8 ((twinSigned now).computeHash stampHash)).length = 64 := by
    rw [Block.computeHash, BlockHeader.canonicalHash, utf8_encode_length, length_toList]
  have sized (now : U64) : hasValidSignatureLength (twinSigned now).validatorSignature = true :=
    decide_eq_true (.inr (twinSigned_length now))
  have decoded (now : U64) : decode ((twinSigned now).computeHash stampHash) =
      .ok ((twinBlock now).computeHashBytes stampHash).toList := decode_encode _
  have hash (now : U64) : decodeBlockHash ((twinSigned now).computeHash stampHash) =
      .ok ((twinBlock now).computeHashBytes stampHash) := decodeBlockHash_encode _
  have key : decode (encode twinKey) = .ok twinKey := decode_encode _
  have apart : ¬signedBlockSignatureLen = sphincsSigLen := by decide
  have read : signatureBytes (twinSigned 1).validatorSignature twinKey =
      .ok (echoSign ((twinBlock 1).computeHashBytes stampHash).toList) := by
    rw [signatureBytes, twinSigned_length, if_neg apart, if_pos rfl, twinSigned_signature,
      take_left' twinKey_length, if_neg (not_not.mpr rfl), drop_left' twinKey_length]
  have unverified : echoSphincs.verifyDetachedSignature (echoSign ((twinBlock 1).computeHashBytes stampHash).toList)
      (doubleSignMessage 1 ((twinBlock 1).computeHashBytes stampHash)) twinKey = false :=
    (twinSecret_binds _).binds _ (Set.mem_insert _ _) _ (Set.mem_insert_of_mem _ rfl)
      (computeHashBytes_ne_doubleSignMessage _)
  have unknown : new.processedEvidence.lookup ("alice", (1 : U64)) = none := rfl
  have named : "alice".isEmpty = false := rfl
  have positive : ¬(1 : U64) = 0 := by decide
  simp only [twinEvidence, processEvidenceWithCanonicalChain, isWellFormed,
    validatorId, keyHeight, verifyEvidenceSignatures, verifyBlockHash,
    verifyValidatorSignature, named, positive, text, decoded, sized, hash, key, read, unknown, lookup_lone, freshValidator,
    twinKey_length, twinKey_accepted, twinBlock_differ, echoSign_parses, unverified, okOr, bind, Except.bind, pure,
    Except.pure, Except.mapError, length_toList, ne_eq, not_true_eq_false, or_self, if_false, Bool.false_eq_true,
    Bool.true_eq_false, Option.isSome_none]
  rfl

/-- A vote of the validator for a block at height 1. -/
def twinVote (blockHash : String) : Bytes := pbftVoteMessage .prepare 1 blockHash "alice"

theorem twinVote_binds (height timestamp : U64) (vote : Hash32) :
    echoSphincs.Binds twinSecret twinKey
      {twinVote "left", equivocationVoteMessage "alice" height timestamp vote.toList} := by
  refine echoSphincs_binds ?_
  have voted : (twinVote "left").length = 53 := rfl
  have evident : (equivocationVoteMessage "alice" height timestamp vote.toList).length = 93 := by
    have front : (equivocationDomain ++ lengthPrefixed "alice").length = 37 := rfl
    simp only [equivocationVoteMessage, Codec.lengthPrefixed, length_append, le64_length, leBytes_length,
      length_toList] at front ⊢
    omega
  rintro message (rfl | rfl)
  · rw [voted]
    decide
  · rw [evident]
    decide

/-- Two different blocks of height 1 with signatures that verify, and two votes
for different hashes with signatures that verify: the engine takes neither as
evidence, the blocks because of a signature over another message. -/
theorem signed_twins_not_slashable :
    (twinBlock 1).index = 1 ∧ (twinBlock 2).index = 1 ∧
    (twinBlock 1).computeHash stampHash ≠ (twinBlock 2).computeHash stampHash ∧
    (∀ now, (twinBlock now).signBlockWithPk stampHash echoSphincs twinSecret twinKey = .ok (twinSigned now) ∧
      (twinSigned now).verifySignature stampHash echoSphincs twinKey = .ok true) ∧
    (∀ canonical, new.processEvidenceWithCanonicalChain echoSphincs
      (.doubleSigning "alice" 1 ((twinSigned 1).computeHash stampHash) ((twinSigned 2).computeHash stampHash)
        (twinSigned 1).validatorSignature (twinSigned 2).validatorSignature)
      (loneRegistry (Hex.encode twinKey)) 0 9 canonical =
      .error ("Invalid first double-signing proof at height 1: " ++
        "SPHINCS+ signature verification failed: InvalidSignature")) ∧
    (∀ blockHash, echoSphincs.verifyDetachedSignature (echoSphincs.detachedSign (twinVote blockHash) twinSecret)
      (twinVote blockHash) twinKey = true) ∧
    ∀ (height timestamp1 timestamp2 : U64) (vote1 vote2 : Hash32) (canonical : U64 → Hash32 → Bool),
      ∃ text, new.processEvidenceWithCanonicalChain echoSphincs
        (.equivocation "alice" height vote1.toList vote2.toList (echoSphincs.detachedSign (twinVote "left") twinSecret)
          (echoSphincs.detachedSign (twinVote "right") twinSecret) timestamp1 timestamp2)
        (loneRegistry (Hex.encode twinKey)) 0 9 canonical = .error text := by
  refine ⟨rfl, rfl, fun same => twinBlock_differ (encode_injective same),
    fun now => ⟨twinSigned_signs now, twinSigned_verifies now⟩, fun canonical => twinEvidence_rejected 0 9 canonical,
    fun blockHash => echoSphincs_verifies _ _, ?_⟩
  intro height timestamp1 timestamp2 vote1 vote2 canonical
  exact equivocation_rejected (lookup_lone _) (decode_encode _) (.inl rfl) (twinVote_binds height timestamp1 vote1)

theorem twins_rejected :
    (∃ text, new.processEvidenceWithCanonicalChain echoSphincs
      (.doubleSigning "alice" 1 ((twinSigned 1).computeHash stampHash) ((twinSigned 2).computeHash stampHash)
        (twinSigned 1).validatorSignature (twinSigned 2).validatorSignature)
      (loneRegistry (Hex.encode twinKey)) 0 9 (fun _ _ => true) = .error text) ∧
    ∃ text, new.processEvidenceWithCanonicalChain echoSphincs
      (.equivocation "alice" 1 (Vector.replicate 32 0).toList (Vector.replicate 32 1).toList
        (echoSphincs.detachedSign (twinVote "left") twinSecret)
        (echoSphincs.detachedSign (twinVote "right") twinSecret) 1 2)
      (loneRegistry (Hex.encode twinKey)) 0 9 (fun _ _ => true) = .error text := by
  have rejected := @real_misbehaviour_rejected stampHash echoSphincs (loneRegistry (encode twinKey)) "alice" _
    twinSecret twinKey (lookup_lone _) (decode_encode _)
  constructor
  · exact rejected.1 1 (twinBlock 1) (twinBlock 2) (twinSigned 1) (twinSigned 2) rfl rfl
      (fun same => twinBlock_differ (encode_injective same)) (twinSigned_signs 1) (twinSigned_signs 2)
      (twinSecret_binds _) .new 0 9 _
  · exact rejected.2 .prepare 1 "left" "right" _ _ (by decide) (.inl rfl) (.inl rfl) 1 1 2 _ _
      (twinVote_binds 1 1 (replicate 32 0)) .new 0 9 _

end Twins

end Bleep
