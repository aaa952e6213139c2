import Bleep.Availability.Store
import Bleep.Merkle.Commitment

namespace Bleep.Availability

open HashTable Words Results

structure AvailabilityConfig where
  requiredThresholdBps : U32 := 6667

/-- What a call reads outside of the layer: the signatures of the mempool, and
whether the gossip takes a message. -/
structure Surroundings where
  getSig : Hash32 → Option Bytes
  getSignerPk : Hash32 → Option Bytes
  broadcast : SigAvailabilityMessage → Bool

structure SigAvailabilityLayer where
  store : SigAvailabilityStore
  validatorPk : Bytes
  validatorPkHash : Hash32
  validatorSk : Bytes
  config : AvailabilityConfig
  attestedBlocks : Finset (U64 × Hash32)

section

variable (hashes : Hashes) (sphincs : Sphincs)

def signSphincs (skBytes msg : Bytes) : Except String Bytes := do
  (sphincs.secretKey skBytes).mapError fun e => s!"invalid SK: {e}"
  return sphincs.detachedSign msg skBytes

def verifySphincs (pkBytes msg sigBytes : Bytes) : Bool :=
  (sphincs.publicKey pkBytes).isOk && (sphincs.detachedSignature sigBytes).isOk
    && sphincs.verifyDetachedSignature sigBytes msg pkBytes

def pkToHash (pkBytes : Bytes) : Hash32 := hashes.sha3 (utf8 "bleep_validator_pk_hash_v1" ++ pkBytes)

def BatchBlockAttestation.payload (att : BatchBlockAttestation) : Bytes :=
  signingPayload hashes att.blockId att.sigCommitmentRoot att.attestedCount (att.attestedBitmap.hash hashes)

/-- The proposer's signature and the root of an announcement. -/
def acceptsAnnouncement (ann : SigCommitmentAnnouncement) : Bool :=
  verifySphincs sphincs ann.proposerPk
      (SigCommitmentAnnouncement.signingPayload hashes ann.blockId ann.sigCommitmentRoot ann.sigCount) ann.proposerSig
    && verifyCommitmentRoot hashes ann.sigCommitmentRoot ann.sigHashes

/-- The count and the signature of an attestation. -/
def acceptsAttestation (att : BatchBlockAttestation) : Bool :=
  att.attestedCount = att.attestedBitmap.countSet
    && verifySphincs sphincs att.validatorPk (att.payload hashes) att.attestationSig

/-- One turn of the loop over the committed hashes. -/
def coverTx (around : Surroundings) (blockId : BlockId) (state : SigAvailabilityStore × TxBitmap)
    (entry : Hash32 × ℕ) : SigAvailabilityStore × TxBitmap :=
  match around.getSig entry.1 with
  | none => state
  | some fullSig =>
    if merkleHashLeaf hashes fullSig ≠ entry.1 then state else
      let txIndex := BitVec.ofNat 32 entry.2
      let store := match around.getSignerPk entry.1 with
        | none => state.1
        | some signerPk => state.1.cacheFullSig blockId txIndex fullSig signerPk
      (store, state.2.set txIndex)

def coverTxs (around : Surroundings) (ann : SigCommitmentAnnouncement) (store : SigAvailabilityStore) :
    SigAvailabilityStore × TxBitmap :=
  ann.sigHashes.zipIdx.foldl (coverTx hashes around ann.blockId) (store, .new ann.sigCount)

namespace SigAvailabilityLayer

def new (validatorSk validatorPk : Bytes) (currentEpoch : U64) (config : AvailabilityConfig) : SigAvailabilityLayer :=
  ⟨.new currentEpoch, validatorPk, pkToHash hashes validatorPk, validatorSk, config, ∅⟩

variable (self : SigAvailabilityLayer)

def buildBatchAttestation (blockId : BlockId) (sigCommitmentRoot : Hash32)
    (bitmap : TxBitmap) : Except String BatchBlockAttestation := do
  let attestedCount := bitmap.countSet
  let payload := BatchBlockAttestation.signingPayload hashes blockId sigCommitmentRoot attestedCount
    (bitmap.hash hashes)
  let sig ← signSphincs sphincs self.validatorSk payload
  return ⟨blockId, sigCommitmentRoot, bitmap, attestedCount, self.validatorPkHash, sig, self.validatorPk⟩

variable (around : Surroundings)

def sentAttestation (ann : SigCommitmentAnnouncement)
    (bitmap : TxBitmap) : Option BatchBlockAttestation :=
  if bitmap.isEmpty then none else
    match self.buildBatchAttestation hashes sphincs ann.blockId ann.sigCommitmentRoot bitmap with
    | .error _ => none
    | .ok att => if around.broadcast (.batchAttestation att) then some att else none

def handleAnnouncement (ann : SigCommitmentAnnouncement) :
    SigAvailabilityLayer :=
  if !acceptsAnnouncement hashes sphincs ann then self else
    let stored := self.store.storeAnnouncement ann
    let block := (ann.blockId.height, ann.blockId.blockHash)
    if block ∈ self.attestedBlocks then { self with store := stored } else
      let (store, bitmap) := coverTxs hashes around ann stored
      match self.sentAttestation hashes sphincs around ann bitmap with
      | none => { self with store }
      | some att => { self with
          store := (store.recordBatchAttestation att).2
          attestedBlocks := insert block self.attestedBlocks }

/-- Where there is no announcement yet, the root is not compared. -/
def handleBatchAttestation (att : BatchBlockAttestation) : SigAvailabilityLayer :=
  if !acceptsAttestation hashes sphincs att then self else
    match self.store.getAnnouncement att.blockId with
    | some ann =>
      if att.sigCommitmentRoot ≠ ann.sigCommitmentRoot then self else
        { self with store := (self.store.recordBatchAttestation att).2 }
    | none => { self with store := (self.store.recordBatchAttestation att).2 }

def handleRetrievalResponse (resp : SigRetrievalResponse) : SigAvailabilityLayer :=
  match self.store.getCommittedSigHash resp.blockId resp.txIndex with
  | none => self
  | some committed =>
    if merkleHashLeaf hashes resp.fullSig ≠ committed then self else
      { self with store := self.store.cacheFullSig resp.blockId resp.txIndex resp.fullSig resp.txSignerPk }

/-- A request is answered from the cache and changes nothing. -/
def handleMessage : SigAvailabilityMessage → SigAvailabilityLayer
  | .announcement ann => self.handleAnnouncement hashes sphincs around ann
  | .batchAttestation att => self.handleBatchAttestation hashes sphincs att
  | .retrievalRequest _ => self
  | .retrievalResponse resp => self.handleRetrievalResponse hashes resp

def queryAvailability (blockId : BlockId) (activeValidatorCount : U32) :
    BlockSigAvailabilityStatus :=
  self.store.availabilityStatus blockId activeValidatorCount self.config.requiredThresholdBps

def onEpochAdvance (newEpoch : U64) : SigAvailabilityLayer :=
  { self with store := self.store.advanceEpoch newEpoch, attestedBlocks := ∅ }

end SigAvailabilityLayer

inductive LayerCall
  | message (around : Surroundings) (msg : SigAvailabilityMessage)
  | epochAdvance (newEpoch : U64)

def SigAvailabilityLayer.apply (self : SigAvailabilityLayer) : LayerCall → SigAvailabilityLayer
  | .message around msg => self.handleMessage hashes sphincs around msg
  | .epochAdvance newEpoch => self.onEpochAdvance newEpoch

/-- The layer before its `n`-th call. -/
def layerAt (start : SigAvailabilityLayer) (calls : List LayerCall) (n : ℕ) : SigAvailabilityLayer :=
  (calls.take n).foldl (fun self call => self.apply hashes sphincs call) start

end

/-- What the cache of signatures does not hold. -/
structure SameTables (store store' : SigAvailabilityStore) : Prop where
  currentEpoch : store'.currentEpoch = store.currentEpoch
  announcements : store'.announcements = store.announcements
  batchAttestations : store'.batchAttestations = store.batchAttestations
  mergedStates : store'.mergedStates = store.mergedStates

theorem SameTables.refl (store : SigAvailabilityStore) : SameTables store store := ⟨rfl, rfl, rfl, rfl⟩

theorem SameTables.trans {first second third} (one : SameTables first second)
    (two : SameTables second third) : SameTables first third :=
  ⟨two.currentEpoch.trans one.currentEpoch, two.announcements.trans one.announcements,
    two.batchAttestations.trans one.batchAttestations, two.mergedStates.trans one.mergedStates⟩

theorem sameTables_cacheFullSig (store : SigAvailabilityStore) (blockId : BlockId) (txIndex : U32)
    (fullSig txSignerPk : Bytes) : SameTables store (store.cacheFullSig blockId txIndex fullSig txSignerPk) := by
  unfold SigAvailabilityStore.cacheFullSig
  simp only
  split
  · exact .refl store
  · exact ⟨rfl, rfl, rfl, rfl⟩

variable {hashes : Hashes} {sphincs : Sphincs}

variable (around : Surroundings)

variable (ann : SigCommitmentAnnouncement)

/-- The loop over the committed hashes changes only the cache. -/
theorem sameTables_coverTxs (store : SigAvailabilityStore) :
    SameTables store (coverTxs hashes around ann store).1 := by
  refine List.foldlRecOn (motive := fun state : SigAvailabilityStore × TxBitmap => SameTables store state.1) _ _
    (.refl store) fun state same entry _ => same.trans ?_
  unfold coverTx
  split
  · exact .refl _
  split
  · exact .refl _
  split
  · exact .refl _
  · exact sameTables_cacheFullSig ..

/-- The bitmap of an announcement does not depend on the store. -/
theorem bitmap_coverTxs
    (store store' : SigAvailabilityStore) :
    (coverTxs hashes around ann store).2 = (coverTxs hashes around ann store').2 := by
  refine List.foldl_rel (r := fun state state' : SigAvailabilityStore × TxBitmap => state.2 = state'.2) rfl ?_
  rintro entry - ⟨store, bitmap⟩ ⟨store', -⟩ rfl
  unfold coverTx
  split
  · rfl
  · split <;> rfl

/-- The bitmap of an announcement has no bit beyond the number of its
signatures. -/
theorem bounded_coverTxs (store : SigAvailabilityStore) :
    (coverTxs hashes around ann store).2.Bounded ∧ (coverTxs hashes around ann store).2.capacity = ann.sigCount := by
  refine List.foldlRecOn (motive := fun state : SigAvailabilityStore × TxBitmap =>
    state.2.Bounded ∧ state.2.capacity = ann.sigCount) _ _ ⟨TxBitmap.bounded_new ann.sigCount, rfl⟩
    fun state before entry _ => ?_
  unfold coverTx
  split
  · exact before
  split
  · exact before
  · exact ⟨before.1.set _, (state.2.capacity_set _).trans before.2⟩

namespace SigAvailabilityLayer

variable {self : SigAvailabilityLayer} {att : BatchBlockAttestation} {bitmap : TxBitmap}

theorem ok_buildBatchAttestation {blockId root}
    (built : self.buildBatchAttestation hashes sphincs blockId root bitmap = .ok att) :
    att.blockId = blockId ∧ att.sigCommitmentRoot = root ∧ att.attestedBitmap = bitmap ∧
      att.validatorPkHash = self.validatorPkHash ∧ att.validatorPk = self.validatorPk := by
  obtain ⟨sig, -, same⟩ := ok_of_bind built
  cases same
  exact ⟨rfl, rfl, rfl, rfl, rfl⟩

theorem sentAttestation_eq_some {around ann}
    (sent : self.sentAttestation hashes sphincs around ann bitmap = some att) :
    self.buildBatchAttestation hashes sphincs ann.blockId ann.sigCommitmentRoot bitmap = .ok att := by
  unfold sentAttestation at sent
  split at sent
  · cases sent
  split at sent
  · cases sent
  rename_i built
  split at sent
  · cases sent
    exact built
  · cases sent

end SigAvailabilityLayer

end Bleep.Availability
