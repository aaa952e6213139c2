import Bleep.Consensus.SlashingEngine
import Bleep.Core.MerkleBinding

namespace Bleep

open BlockHeader List

/-- The byte strings that one validator key signs, or whose digest it signs. -/
inductive SignedMessage
  | pbftVote (phase : PbftPhase) (blockHeight : U64) (blockHash validatorId : String)
  | equivocationVote (validatorId : String) (height timestamp : U64) (vote : Bytes)
  | doubleSign (height : U64) (blockHash : Hash32)
  | txPayload (tx : Transaction)
  | blockHeader (header : BlockHeader)

open SignedMessage

/-- The header without its signature, and with as much of its proof as the
version commits to. -/
def BlockHeader.semantic (header : BlockHeader) : BlockHeader := { header with
  validatorSignature := []
  zkProof := if 5 ≤ header.protocolVersion then header.committedVrfOutput else [] }

namespace SignedMessage

def encode (sha3 : Bytes → Hash32) : SignedMessage → Bytes
  | pbftVote phase blockHeight blockHash validatorId => pbftVoteMessage phase blockHeight blockHash validatorId
  | equivocationVote validatorId height timestamp vote => equivocationVoteMessage validatorId height timestamp vote
  | doubleSign height blockHash => doubleSignMessage height blockHash
  | txPayload tx => tx.hashInput
  | blockHeader header => header.canonicalHashPreimage sha3

/-- What a message says: all its arguments, but for the signatures and the
proof bytes that are no part of it. -/
def content : SignedMessage → SignedMessage
  | txPayload tx => txPayload tx.unsigned
  | blockHeader header => blockHeader header.semantic
  | message => message

/-- Every text that is written with its length has one that `u64` can hold. -/
def Fits : SignedMessage → Prop
  | pbftVote _ _ blockHash validatorId => (utf8 blockHash).length < 2 ^ 64 ∧ (utf8 validatorId).length < 2 ^ 64
  | equivocationVote validatorId _ _ vote => (utf8 validatorId).length < 2 ^ 64 ∧ vote.length < 2 ^ 64
  | txPayload tx => tx.Fits
  | doubleSign _ _ => True
  | blockHeader _ => True

/-- The texts that stand in a message as their digests. -/
def digested : SignedMessage → List Bytes
  | blockHeader header => [utf8 header.chainId, utf8 header.previousHash, utf8 header.merkleRoot,
      utf8 header.shardRegistryRoot, utf8 header.shardStateRoot]
  | _ => []

inductive Kind
  | pbftVote
  | equivocationVote
  | doubleSign
  | txPayload
  | blockHeader

def Kind.tag : Kind → Bytes
  | pbftVote => utf8 "BLEEP:P"
  | equivocationVote => utf8 "BLEEP:C"
  | doubleSign => utf8 "BLEEP_S"
  | txPayload => utf8 "BLEEP:T"
  | blockHeader => utf8 "BLEEP_B"

def kind : SignedMessage → Kind
  | pbftVote .. => .pbftVote
  | equivocationVote .. => .equivocationVote
  | doubleSign .. => .doubleSign
  | txPayload .. => .txPayload
  | blockHeader .. => .blockHeader

theorem Kind.tag_injective : Function.Injective Kind.tag := by
  intro kind kind' same
  cases kind <;> cases kind' <;> first | rfl | exact absurd same (by decide)

end SignedMessage

section Encoders
variable {sha3 : Bytes → Hash32}

/-- The first seven bytes tell the encoders apart. -/
theorem SignedMessage.encode_take (message : SignedMessage) : (message.encode sha3).take 7 = message.kind.tag := by
  cases message with
  | pbftVote phase blockHeight blockHash validatorId => rfl
  | equivocationVote validatorId height timestamp vote => rfl
  | doubleSign height blockHash => rfl
  | txPayload tx => rfl
  | blockHeader header =>
    simp only [encode, BlockHeader.canonicalHashPreimage, append_assoc, kind]
    -- both versions of the domain are longer than the tag
    by_cases current : 5 ≤ header.protocolVersion
    · rw [if_pos current, take_append_of_le_length (by decide)]
      decide
    · rw [if_neg current, take_append_of_le_length (by decide)]
      decide

variable {message message' : SignedMessage} {height height' : U64}

theorem SignedMessage.kind_content (message : SignedMessage) : message.content.kind = message.kind := by
  cases message <;> rfl

theorem SignedMessage.separated_of_kind (differ : message.kind ≠ message'.kind) :
    message.encode sha3 = message'.encode sha3 ↔ message.content = message'.content := by
  refine iff_of_false (fun same => differ (Kind.tag_injective ?_)) fun same => differ ?_
  · rw [← encode_take, ← encode_take, same]
  · rw [← kind_content, same, kind_content]

theorem pbftVoteMessage_args {phase phase' hash hash' id id'}
    (hashFits : (utf8 hash).length < 2 ^ 64) (hashFits' : (utf8 hash').length < 2 ^ 64)
    (same : pbftVoteMessage phase height hash id = pbftVoteMessage phase' height' hash' id') :
    phase = phase' ∧ height = height' ∧ hash = hash' ∧ id = id' := by
  simp only [pbftVoteMessage, append_assoc] at same
  obtain ⟨tags, same⟩ := append_inj (append_cancel_left same) rfl
  obtain ⟨heights, same⟩ := le64_delimited trivial trivial same
  obtain ⟨hashes, same⟩ := lengthPrefixed_append_inj hashFits hashFits' same
  exact ⟨PbftPhase.tag_injective (singleton_inj.mp tags), heights, hashes, lengthPrefixed_injective same⟩

theorem equivocationVoteMessage_args {id id' timestamp timestamp' vote vote'}
    (idFits : (utf8 id).length < 2 ^ 64) (idFits' : (utf8 id').length < 2 ^ 64)
    (same : equivocationVoteMessage id height timestamp vote = equivocationVoteMessage id' height' timestamp' vote') :
    id = id' ∧ height = height' ∧ timestamp = timestamp' ∧ vote = vote' := by
  simp only [equivocationVoteMessage, append_assoc] at same
  obtain ⟨ids, same⟩ := lengthPrefixed_append_inj idFits idFits' (append_cancel_left same)
  obtain ⟨heights, same⟩ := le64_delimited trivial trivial same
  obtain ⟨timestamps, same⟩ := le64_delimited trivial trivial same
  exact ⟨ids, heights, timestamps, append_inj_right same (by simp)⟩

theorem doubleSignMessage_args {hash hash'}
    (same : doubleSignMessage height hash = doubleSignMessage height' hash') : height = height' ∧ hash = hash' := by
  simp only [doubleSignMessage, append_assoc] at same
  obtain ⟨heights, hashes⟩ := append_inj (append_cancel_left same) (by simp)
  exact ⟨le64_injective (reverse_inj.mp heights), Vector.toList_inj.mp hashes⟩

/-- Equal semantic headers are hashed alike, and where the digests of their
texts tell these apart, no others are. -/
theorem BlockHeader.canonicalHashPreimage_eq_iff {header header'} (injective : Set.InjOn sha3 { input |
      input ∈ (blockHeader header).digested ∨ input ∈ (blockHeader header').digested }) :
    header.canonicalHashPreimage sha3 = header'.canonicalHashPreimage sha3 ↔ header.semantic = header'.semantic := by
  constructor
  · intro same
    have agrees := canonicalHashPreimage_inj sha3 same
    have text {s t : String} (listed : utf8 s ∈ (blockHeader header).digested)
        (listed' : utf8 t ∈ (blockHeader header').digested) (digests : sha3 (utf8 s) = sha3 (utf8 t)) :
        s = t := utf8_injective (injective (.inl listed) (.inr listed') digests)
    simp only [semantic, agrees.committed, agrees.index, agrees.timestamp, agrees.epochId, agrees.consensusMode,
      agrees.protocolVersion, agrees.shardId, agrees.sigCommitmentRoot,
      text (by simp [digested]) (by simp [digested]) agrees.chainId,
      text (by simp [digested]) (by simp [digested]) agrees.previousHash,
      text (by simp [digested]) (by simp [digested]) agrees.merkleRoot,
      text (by simp [digested]) (by simp [digested]) agrees.shardRegistryRoot,
      text (by simp [digested]) (by simp [digested]) agrees.shardStateRoot]
  · intro same
    simp only [semantic, mk.injEq] at same
    obtain ⟨index, timestamp, chainId, previousHash, merkleRoot, -, vrf, epochId, mode, version, registryRoot, shardId,
      stateRoot, sigRoot⟩ := same
    refine BlockHeader.Agrees.canonicalHashPreimage sha3 ⟨index, timestamp, by rw [chainId], by rw [previousHash],
      by rw [merkleRoot], epochId, mode, version, by rw [registryRoot], shardId, by rw [stateRoot], sigRoot, ?_⟩
    intro current
    rwa [if_pos current, if_pos (version ▸ current)] at vrf

theorem Transaction.hashInput_eq_iff {tx tx' : Transaction} (fits : tx.Fits) (fits' : tx'.Fits) :
    tx.hashInput = tx'.hashInput ↔ tx.unsigned = tx'.unsigned := by
  refine ⟨Transaction.unsigned_of_hashInput fits fits', fun same => ?_⟩
  change tx.unsigned.hashInput = tx'.unsigned.hashInput
  rw [same]

/-- Two messages have one encoding exactly when they are of one kind and say
the same: the VRF output of a header counts from version 5 on, where an absent
one is as good as zeros. -/
theorem signed_messages_separated {message message' : SignedMessage} (fits : message.Fits) (fits' : message'.Fits)
    (injective : Set.InjOn sha3 { input | input ∈ message.digested ∨ input ∈ message'.digested }) :
    message.encode sha3 = message'.encode sha3 ↔ message.content = message'.content := by
  cases message with
  | pbftVote phase blockHeight blockHash validatorId =>
    cases message' with
    | pbftVote phase' blockHeight' blockHash' validatorId' =>
      refine ⟨fun same => ?_, fun same => congrArg (encode sha3) same⟩
      obtain ⟨rfl, rfl, rfl, rfl⟩ := pbftVoteMessage_args fits.1 fits'.1 same
      rfl
    | _ => exact separated_of_kind (fun same => by cases same)
  | equivocationVote validatorId height timestamp vote =>
    cases message' with
    | equivocationVote validatorId' height' timestamp' vote' =>
      refine ⟨fun same => ?_, fun same => congrArg (encode sha3) same⟩
      obtain ⟨rfl, rfl, rfl, rfl⟩ := equivocationVoteMessage_args fits.1 fits'.1 same
      rfl
    | _ => exact separated_of_kind (fun same => by cases same)
  | doubleSign height blockHash =>
    cases message' with
    | doubleSign height' blockHash' =>
      refine ⟨fun same => ?_, fun same => congrArg (encode sha3) same⟩
      obtain ⟨rfl, rfl⟩ := doubleSignMessage_args same
      rfl
    | _ => exact separated_of_kind (fun same => by cases same)
  | txPayload tx =>
    cases message' with
    | txPayload tx' =>
      rw [content, content, txPayload.injEq]
      exact Transaction.hashInput_eq_iff fits fits'
    | _ => exact separated_of_kind (fun same => by cases same)
  | blockHeader header =>
    cases message' with
    | blockHeader header' =>
      rw [content, content, blockHeader.injEq]
      exact canonicalHashPreimage_eq_iff injective
    | _ => exact separated_of_kind (fun same => by cases same)

end Encoders

def plainHeader (version : U32) (proof : Bytes) : BlockHeader :=
  { (twinBlock 1).toBlockHeader with protocolVersion := version, zkProof := proof }

/-- Two headers of version 4 with different VRF outputs, and two of version 5
of which only one has an output, have one encoding each. -/
theorem vrf_output_uncommitted : ∃ old old' bare zeros : BlockHeader,
    old.protocolVersion = 4 ∧ old'.protocolVersion = 4 ∧ old.committedVrfOutput ≠ old'.committedVrfOutput ∧
    bare.protocolVersion = 5 ∧ zeros.protocolVersion = 5 ∧ bare.zkProof = [] ∧
    zeros.zkProof = vrfStarkEnvelopeMagic ++ List.replicate vrfOutputLen 0 ∧
    ∀ sha3, (blockHeader old).encode sha3 = (blockHeader old').encode sha3 ∧
      (blockHeader bare).encode sha3 = (blockHeader zeros).encode sha3 := by
  refine ⟨plainHeader 4 (vrfStarkEnvelopeMagic ++ replicate vrfOutputLen 1),
    plainHeader 4 (vrfStarkEnvelopeMagic ++ replicate vrfOutputLen 2), plainHeader 5 [],
    plainHeader 5 (vrfStarkEnvelopeMagic ++ replicate vrfOutputLen 0), rfl, rfl, by decide, rfl, rfl, rfl, rfl,
    fun sha3 => ?_⟩
  have older : ¬(5 : U32) ≤ 4 := by decide
  constructor
  · rfl
  · rfl

/-- The headers of the twin blocks are told apart by a digest that separates
their texts. -/
theorem twin_headers_separated : (blockHeader (twinBlock 1).toBlockHeader).encode tagHash ≠
    (blockHeader (twinBlock 2).toBlockHeader).encode tagHash := by
  have apart : ∀ input ∈ (blockHeader (twinBlock 1).toBlockHeader).digested,
      ∀ input' ∈ (blockHeader (twinBlock 1).toBlockHeader).digested,
      tagHash input = tagHash input' → input = input' := by
    decide +kernel
  have injective : Set.InjOn tagHash { input |
      input ∈ (blockHeader (twinBlock 1).toBlockHeader).digested ∨
        input ∈ (blockHeader (twinBlock 2).toBlockHeader).digested } := by
    intro input seen input' seen' same
    exact apart input (seen.elim id id) input' (seen'.elim id id) same
  intro same
  have contents :=
    (@signed_messages_separated tagHash (.blockHeader _) (.blockHeader _) trivial trivial injective).mp same
  rw [content, content, blockHeader.injEq] at contents
  have stamps : (1 : U64) = 2 := congrArg timestamp contents
  exact absurd stamps (by decide)

end Bleep
