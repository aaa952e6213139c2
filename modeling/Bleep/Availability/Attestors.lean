import Bleep.Availability.Layer
import Bleep.Library.Runs
import Mathlib.Data.Set.Card

namespace Bleep.Availability

open HashTable Words SigAvailabilityStore SigAvailabilityLayer List AList Set

theorem blockKey_inj {e e' b b'} : blockKey e b = blockKey e' b' ↔ e = e' ∧ b = b' := by
  constructor
  · intro same
    obtain ⟨epoch, height, hash⟩ := BlockKey.mk.inj same
    refine ⟨epoch, ?_⟩
    cases b
    cases b'
    exact BlockId.mk.injEq .. ▸ ⟨height, hash⟩
  · rintro ⟨rfl, rfl⟩
    rfl

theorem batchKey_inj {e e' b b' h h'} :
    batchKey e b h = batchKey e' b' h' ↔ blockKey e b = blockKey e' b' ∧ h = h' := by
  simp only [batchKey, blockKey, BatchKey.mk.injEq, BlockKey.mk.injEq, and_assoc]

namespace SigAvailabilityStore

variable (store : SigAvailabilityStore)

/-- The attestors of a block in an epoch, as they are counted. -/
def countIn (epoch : U64) (blockId : BlockId) : U32 :=
  ((store.mergedStates.lookup (blockKey epoch blockId)).map MergedBitmapState.attestorCount).getD 0

/-- The attestors of a block in an epoch, as they are recorded. -/
def recordedIn (epoch : U64) (blockId : BlockId) : Set Hash32 :=
  {h | (store.batchAttestations.lookup (batchKey epoch blockId h)).isSome = true}

theorem attestingValidatorCount_eq (blockId : BlockId) (active threshold : U32) :
    (store.availabilityStatus blockId active threshold).attestingValidatorCount =
      store.countIn store.currentEpoch blockId := by
  unfold availabilityStatus countIn
  cases store.mergedStates.lookup (blockKey store.currentEpoch blockId) <;> rfl

section Record

variable {store : SigAvailabilityStore} {att : BatchBlockAttestation}

theorem record_of_known (known : att.validatorPkHash ∈ store.recordedIn store.currentEpoch att.blockId) :
    (store.recordBatchAttestation att).2 = store := by
  unfold recordBatchAttestation
  rw [if_pos (show _ = true from known)]

theorem record_of_new (new : att.validatorPkHash ∉ store.recordedIn store.currentEpoch att.blockId) :
    (store.recordBatchAttestation att).2 = { store with
      batchAttestations := store.batchAttestations.insert
        (batchKey store.currentEpoch att.blockId att.validatorPkHash) att
      mergedStates := store.mergedStates.insert (blockKey store.currentEpoch att.blockId)
        ⟨(store.mergedFor att).merged.merge att.attestedBitmap, (store.mergedFor att).attestorCount + 1⟩ } := by
  unfold recordBatchAttestation
  rw [if_neg (show ¬ _ = true from new)]

theorem countIn_record (new : att.validatorPkHash ∉ store.recordedIn store.currentEpoch att.blockId) :
    (store.recordBatchAttestation att).2.countIn store.currentEpoch att.blockId =
        store.countIn store.currentEpoch att.blockId + 1 ∧
      (store.recordBatchAttestation att).2.recordedIn store.currentEpoch att.blockId =
        insert att.validatorPkHash (store.recordedIn store.currentEpoch att.blockId) := by
  rw [record_of_new new]
  constructor
  · unfold countIn mergedFor
    rw [lookup_insert]
    cases store.mergedStates.lookup (blockKey store.currentEpoch att.blockId) <;> rfl
  · ext h
    by_cases same : h = att.validatorPkHash
    · simp [same, recordedIn]
    · have apart : batchKey store.currentEpoch att.blockId h ≠
          batchKey store.currentEpoch att.blockId att.validatorPkHash := fun keys => same (batchKey_inj.mp keys).2
      simp [same, recordedIn, lookup_insert_ne apart]

theorem record_elsewhere {epoch blockId}
    (elsewhere : blockKey epoch blockId ≠ blockKey store.currentEpoch att.blockId) :
    (store.recordBatchAttestation att).2.countIn epoch blockId = store.countIn epoch blockId ∧
      (store.recordBatchAttestation att).2.recordedIn epoch blockId = store.recordedIn epoch blockId := by
  by_cases known : att.validatorPkHash ∈ store.recordedIn store.currentEpoch att.blockId
  · rw [record_of_known known]
    exact ⟨rfl, rfl⟩
  · rw [record_of_new known]
    constructor
    · rw [countIn, lookup_insert_ne elsewhere, countIn]
    ext h
    have apart : batchKey epoch blockId h ≠ batchKey store.currentEpoch att.blockId att.validatorPkHash :=
      fun keys => elsewhere (batchKey_inj.mp keys).1
    simp [recordedIn, lookup_insert_ne apart]

theorem record_header :
    (store.recordBatchAttestation att).2.currentEpoch = store.currentEpoch ∧
      (store.recordBatchAttestation att).2.announcements = store.announcements := by
  unfold recordBatchAttestation
  simp only
  split <;> exact ⟨rfl, rfl⟩

end Record

end SigAvailabilityStore

section Signing

variable (hashes : Hashes) (sphincs : Sphincs) (signed : Set (Bytes × Bytes))

/-- The keys whose holders signed an attestation for the block. -/
def Signers (blockId : BlockId) : Set Bytes :=
  {pk | ∃ root count bitmapHash, (pk, BatchBlockAttestation.signingPayload hashes blockId root count bitmapHash) ∈ signed}

/-- The layer attests the announcement. -/
def Signs (self : SigAvailabilityLayer) (around : Surroundings) (ann : SigCommitmentAnnouncement)
    (att : BatchBlockAttestation) : Prop :=
  acceptsAnnouncement hashes sphincs ann = true ∧ (ann.blockId.height, ann.blockId.blockHash) ∉ self.attestedBlocks ∧
    self.sentAttestation hashes sphincs around ann
      (coverTxs hashes around ann (self.store.storeAnnouncement ann)).2 = some att

/-- What the holders of the keys signed: whatever verifies, and what the layer
itself signs. -/
structure SignedBy (start : SigAvailabilityLayer) (calls : List LayerCall) : Prop where
  unforgeable : ∀ pk msg sig, verifySphincs sphincs pk msg sig = true → (pk, msg) ∈ signed
  own : ∀ n around ann att, calls[n]? = some (.message around (.announcement ann)) →
    Signs hashes sphincs (layerAt hashes sphincs start calls n) around ann att →
      (att.validatorPk, att.payload hashes) ∈ signed

/-- An attestation that is accepted carries the hash of its key. -/
def CarriesKeyHash : LayerCall → Prop
  | .message _ (.batchAttestation att) =>
    acceptsAttestation hashes sphincs att = true → att.validatorPkHash = pkToHash hashes att.validatorPk
  | _ => True

/-- Each attestor that is counted is the hash of a key that signed. -/
structure Accounted (store : SigAvailabilityStore) : Prop where
  counted : ∀ epoch blockId, ((store.countIn epoch blockId).toNat : ℕ∞) ≤ (store.recordedIn epoch blockId).encard
  vouched : ∀ epoch blockId, store.recordedIn epoch blockId ⊆ Set.image (pkToHash hashes) (Signers hashes signed blockId)

end Signing

variable {hashes : Hashes} {sphincs : Sphincs} {signed : Set (Bytes × Bytes)} {store store' : SigAvailabilityStore}

theorem Accounted.of_same (accounted : Accounted hashes signed store)
    (batches : store'.batchAttestations = store.batchAttestations) (merged : store'.mergedStates = store.mergedStates) :
    Accounted hashes signed store' := by
  have counts (epoch : U64) (blockId : BlockId) : store'.countIn epoch blockId = store.countIn epoch blockId := by
    rw [countIn, merged, countIn]
  have records (epoch : U64) (blockId : BlockId) : store'.recordedIn epoch blockId = store.recordedIn epoch blockId := by
    rw [recordedIn, batches, recordedIn]
  constructor
  · intro epoch blockId
    rw [counts, records]
    exact accounted.counted epoch blockId
  · intro epoch blockId
    rw [records]
    exact accounted.vouched epoch blockId

theorem Accounted.storeAnnouncement (accounted : Accounted hashes signed store) (ann : SigCommitmentAnnouncement) :
    Accounted hashes signed (store.storeAnnouncement ann) := by
  have counts (epoch : U64) (blockId : BlockId) :
      (store.storeAnnouncement ann).countIn epoch blockId = store.countIn epoch blockId := by
    unfold countIn SigAvailabilityStore.storeAnnouncement
    simp only
    split
    · rfl
    rename_i absent
    by_cases here : blockKey epoch blockId = blockKey store.currentEpoch ann.blockId
    · rw [here, lookup_insert, absent]
      rfl
    · rw [lookup_insert_ne here]
  constructor
  · intro epoch blockId
    rw [counts]
    exact accounted.counted epoch blockId
  · exact accounted.vouched

variable {att : BatchBlockAttestation}

theorem Accounted.record (accounted : Accounted hashes signed store)
    (vouched : att.validatorPkHash ∈ Set.image (pkToHash hashes) (Signers hashes signed att.blockId)) :
    Accounted hashes signed (store.recordBatchAttestation att).2 := by
  by_cases known : att.validatorPkHash ∈ store.recordedIn store.currentEpoch att.blockId
  · rw [record_of_known known]
    exact accounted
  obtain ⟨counts, records⟩ := countIn_record known
  constructor
  · intro epoch blockId
    by_cases here : blockKey epoch blockId = blockKey store.currentEpoch att.blockId
    · obtain ⟨rfl, rfl⟩ := blockKey_inj.mp here
      have step : (store.countIn store.currentEpoch att.blockId + 1).toNat ≤
          (store.countIn store.currentEpoch att.blockId).toNat + 1 := by
        exact Nat.mod_le _ _
      have before := accounted.counted store.currentEpoch att.blockId
      rw [counts, records, encard_insert_of_notMem known]
      calc ((store.countIn store.currentEpoch att.blockId + 1).toNat : ℕ∞)
          ≤ ((store.countIn store.currentEpoch att.blockId).toNat + 1 : ℕ) := by exact_mod_cast step
        _ = ((store.countIn store.currentEpoch att.blockId).toNat : ℕ∞) + 1 := by push_cast; rfl
        _ ≤ (store.recordedIn store.currentEpoch att.blockId).encard + 1 := by gcongr
    · obtain ⟨counts, records⟩ := record_elsewhere here
      rw [counts, records]
      exact accounted.counted epoch blockId
  · intro epoch blockId
    by_cases here : blockKey epoch blockId = blockKey store.currentEpoch att.blockId
    · obtain ⟨rfl, rfl⟩ := blockKey_inj.mp here
      rw [records]
      exact insert_subset vouched (accounted.vouched _ _)
    · rw [(record_elsewhere here).2]
      exact accounted.vouched epoch blockId

theorem Accounted.advanceEpoch (accounted : Accounted hashes signed store) (newEpoch : U64) :
    Accounted hashes signed (store.advanceEpoch newEpoch) := by
  unfold SigAvailabilityStore.advanceEpoch
  split
  · exact accounted
  constructor
  · intro epoch blockId
    unfold countIn recordedIn
    simp only [lookup_retain]
    by_cases kept : newEpoch ≤ epoch
    · simp only [blockKey, batchKey, kept, decide_true, if_true]
      exact accounted.counted epoch blockId
    · simp [blockKey, kept]
  · intro epoch blockId h member
    unfold recordedIn at member
    simp only [lookup_retain, mem_ofPred_eq] at member
    split at member
    · exact accounted.vouched epoch blockId member
    · cases member

theorem mem_signers (signs : (att.validatorPk, att.payload hashes) ∈ signed) :
    att.validatorPk ∈ Signers hashes signed att.blockId := ⟨_, _, _, signs⟩

def OwnHash (hashes : Hashes) (self : SigAvailabilityLayer) : Prop :=
  self.validatorPkHash = pkToHash hashes self.validatorPk

theorem Signs.payload_key {self around ann} (signs : Signs hashes sphincs self around ann att) :
    att.validatorPkHash = self.validatorPkHash ∧ att.validatorPk = self.validatorPk := by
  obtain ⟨-, -, -, hash, key⟩ := ok_buildBatchAttestation (sentAttestation_eq_some signs.2.2)
  exact ⟨hash, key⟩

variable (self : SigAvailabilityLayer)

/-- An announcement is stored; then the layer's own attestation is recorded,
where it signs one. -/
theorem handleAnnouncement_cases (around : Surroundings)
    (ann : SigCommitmentAnnouncement) :
    self.handleAnnouncement hashes sphincs around ann = self ∨
      ∃ store, SameTables (self.store.storeAnnouncement ann) store ∧
        (self.handleAnnouncement hashes sphincs around ann = { self with store } ∨
          ∃ att, Signs hashes sphincs self around ann att ∧
            self.handleAnnouncement hashes sphincs around ann =
              { self with
                store := (store.recordBatchAttestation att).2
                attestedBlocks := insert (ann.blockId.height, ann.blockId.blockHash) self.attestedBlocks }) := by
  unfold handleAnnouncement
  cases accepted : acceptsAnnouncement hashes sphincs ann with
  | false => exact .inl rfl
  | true =>
    right
    simp only [Bool.not_true, Bool.false_eq_true, if_false]
    by_cases attested : (ann.blockId.height, ann.blockId.blockHash) ∈ self.attestedBlocks
    · rw [if_pos attested]
      exact ⟨_, .refl _, .inl rfl⟩
    · rw [if_neg attested]
      refine ⟨_, @sameTables_coverTxs hashes around ann _, ?_⟩
      split
      · exact .inl rfl
      · rename_i att sent
        exact .inr ⟨att, ⟨accepted, attested, sent⟩, rfl⟩

/-- An attestation is passed by, or it is accepted and recorded. -/
theorem handleBatchAttestation_cases (att : BatchBlockAttestation) :
    self.handleBatchAttestation hashes sphincs att = self ∨
      acceptsAttestation hashes sphincs att = true ∧
        self.handleBatchAttestation hashes sphincs att =
          { self with store := (self.store.recordBatchAttestation att).2 } := by
  unfold handleBatchAttestation
  cases accepted : acceptsAttestation hashes sphincs att with
  | false => exact .inl rfl
  | true =>
    simp only [Bool.not_true, Bool.false_eq_true, if_false]
    split
    · split
      · exact .inl rfl
      · exact .inr ⟨trivial, rfl⟩
    · exact .inr ⟨trivial, rfl⟩

theorem sameTables_handleRetrievalResponse (resp : SigRetrievalResponse) :
    ∃ store, SameTables self.store store ∧
      self.handleRetrievalResponse hashes resp = { self with store } := by
  unfold handleRetrievalResponse
  split
  · exact ⟨_, .refl _, rfl⟩
  · split
    · exact ⟨_, .refl _, rfl⟩
    · exact ⟨_, sameTables_cacheFullSig .., rfl⟩

section Runs

variable {start : SigAvailabilityLayer} {calls : List LayerCall}

theorem Accounted.apply {self} (accounted : Accounted hashes signed self.store)
    (ownHash : OwnHash hashes self) {call}
    (unforgeable : ∀ pk msg sig, verifySphincs sphincs pk msg sig = true → (pk, msg) ∈ signed)
    (own : ∀ around ann att, call = .message around (.announcement ann) → Signs hashes sphincs self around ann att →
      (att.validatorPk, att.payload hashes) ∈ signed) (carries : CarriesKeyHash hashes sphincs call) :
    Accounted hashes signed (self.apply hashes sphincs call).store ∧
      OwnHash hashes (self.apply hashes sphincs call) := by
  rcases call with ⟨around, ann | att | req | resp⟩ | newEpoch
  · rcases @handleAnnouncement_cases hashes sphincs self around ann with
      same | ⟨store, same, stored | ⟨att, signs, recorded⟩⟩
    · rw [SigAvailabilityLayer.apply, handleMessage, same]
      exact ⟨accounted, ownHash⟩
    · rw [SigAvailabilityLayer.apply, handleMessage, stored]
      exact ⟨(accounted.storeAnnouncement ann).of_same same.batchAttestations same.mergedStates, ownHash⟩
    · rw [SigAvailabilityLayer.apply, handleMessage, recorded]
      refine ⟨((accounted.storeAnnouncement ann).of_same same.batchAttestations same.mergedStates).record ?_, ownHash⟩
      obtain ⟨hash, key⟩ := signs.payload_key
      refine ⟨att.validatorPk, mem_signers (own around ann att rfl signs), ?_⟩
      rw [key, hash]
      exact ownHash.symm
  · rcases @handleBatchAttestation_cases hashes sphincs self att with
      same | ⟨accepted, recorded⟩
    · rw [SigAvailabilityLayer.apply, handleMessage, same]
      exact ⟨accounted, ownHash⟩
    · rw [SigAvailabilityLayer.apply, handleMessage, recorded]
      refine ⟨accounted.record ⟨att.validatorPk, mem_signers (unforgeable _ _ att.attestationSig ?_), ?_⟩, ownHash⟩
      · exact (Bool.and_eq_true_iff.mp accepted).2
      · exact (carries accepted).symm
  · exact ⟨accounted, ownHash⟩
  · obtain ⟨store, same, stored⟩ := @sameTables_handleRetrievalResponse hashes self resp
    rw [SigAvailabilityLayer.apply, handleMessage, stored]
    exact ⟨accounted.of_same same.batchAttestations same.mergedStates, ownHash⟩
  · exact ⟨accounted.advanceEpoch newEpoch, ownHash⟩

theorem accounted_layerAt (holders : SignedBy hashes sphincs signed start calls)
    (carries : ∀ call ∈ calls, CarriesKeyHash hashes sphincs call) (ownHash : OwnHash hashes start)
    (accounted : Accounted hashes signed start.store) (n : ℕ) :
    Accounted hashes signed (layerAt hashes sphincs start calls n).store ∧
      OwnHash hashes (layerAt hashes sphincs start calls n) := by
  refine @Runs.foldl_take_keeps _ _ _ _ _ (fun self : SigAvailabilityLayer =>
    Accounted hashes signed self.store ∧ OwnHash hashes self) 0 n (Nat.zero_le n) ⟨accounted, ownHash⟩
    fun k call _ _ here held => ?_
  refine held.1.apply held.2 holders.unforgeable (fun around ann att named signs => ?_)
    (carries call (mem_of_getElem? here))
  exact holders.own k around ann att (named ▸ here) signs

theorem accounted_new (epoch : U64) : Accounted hashes signed (.new epoch) := by
  constructor
  · intro epoch blockId
    exact zero_le
  · intro epoch blockId h member
    cases member

theorem Accounted.count_le (accounted : Accounted hashes signed store) (blockId : BlockId) (active threshold : U32) :
    ((store.availabilityStatus blockId active threshold).attestingValidatorCount.toNat : ℕ∞) ≤
      (Signers hashes signed blockId).encard := by
  rw [attestingValidatorCount_eq]
  calc ((store.countIn store.currentEpoch blockId).toNat : ℕ∞)
      ≤ (store.recordedIn store.currentEpoch blockId).encard := accounted.counted _ _
    _ ≤ (image (pkToHash hashes) (Signers hashes signed blockId)).encard :=
        encard_le_encard (accounted.vouched _ _)
    _ ≤ (Signers hashes signed blockId).encard := encard_image_le _ _

end Runs

section Replays

def BatchBlockAttestation.under (att : BatchBlockAttestation) (h : Hash32) : BatchBlockAttestation :=
  { att with validatorPkHash := h }

theorem acceptsAttestation_under (att : BatchBlockAttestation) (h : Hash32) :
    acceptsAttestation hashes sphincs (att.under h) = acceptsAttestation hashes sphincs att := rfl

/-- Each replay under a new hash counts. -/
theorem countIn_replays {att} (accepted : acceptsAttestation hashes sphincs att = true)
    (around : Surroundings) (replays : List Hash32) (self : SigAvailabilityLayer) (distinct : replays.Nodup)
    (unannounced : self.store.getAnnouncement att.blockId = none)
    (fresh : ∀ h ∈ replays, h ∉ self.store.recordedIn self.store.currentEpoch att.blockId) :
    let after := (replays.map fun h => LayerCall.message around (.batchAttestation (att.under h))).foldl
      (fun self call => self.apply hashes sphincs call) self
    after.store.countIn after.store.currentEpoch att.blockId =
      self.store.countIn self.store.currentEpoch att.blockId + BitVec.ofNat 32 replays.length := by
  induction replays generalizing self with
  | nil => exact (BitVec.add_zero _).symm
  | cons h replays ih =>
    obtain ⟨apart, distinct⟩ := nodup_cons.mp distinct
    have new : h ∉ self.store.recordedIn self.store.currentEpoch att.blockId := fresh h mem_cons_self
    have recorded : self.apply hashes sphincs (.message around (.batchAttestation (att.under h))) =
        { self with store := (self.store.recordBatchAttestation (att.under h)).2 } := by
      change self.handleBatchAttestation hashes sphincs (att.under h) = _
      have none : self.store.getAnnouncement (att.under h).blockId = none := unannounced
      rw [handleBatchAttestation, acceptsAttestation_under, accepted, none]
      rfl
    obtain ⟨counts, records⟩ := @countIn_record self.store (att.under h) new
    obtain ⟨epoch, announcements⟩ := @record_header self.store (att.under h)
    have rest := ih { self with store := (self.store.recordBatchAttestation (att.under h)).2 } distinct
      (by rw [getAnnouncement, epoch, announcements]; exact unannounced) fun h' member => by
        rw [epoch]
        have grown := records
        change _ ∉ (self.store.recordBatchAttestation (att.under h)).2.recordedIn self.store.currentEpoch
          (att.under h).blockId
        rw [grown, Set.mem_insert_iff, not_or]
        refine ⟨?_, fresh h' (List.mem_cons_of_mem h member)⟩
        rintro rfl
        exact apart member
    rw [epoch] at rest
    simp only [map_cons, foldl_cons, recorded]
    refine rest.trans ?_
    have first : (self.store.recordBatchAttestation (att.under h)).2.countIn self.store.currentEpoch att.blockId =
        self.store.countIn self.store.currentEpoch att.blockId + 1 := counts
    rw [first, List.length_cons, BitVec.ofNat_add, BitVec.add_comm (BitVec.ofNat 32 replays.length), ← BitVec.add_assoc]
    rfl

end Replays

/-- The attestors of a block. Where every attestation that is accepted carries
the hash of its key, they are at most the keys that signed an attestation of the
block, so that a coalition adds at most its own keys. Otherwise one accepted
attestation can be replayed up to any count. -/
theorem attestor_count_bound (hashes : Hashes) (sphincs : Sphincs) (signed : Set (Bytes × Bytes)) (sk pk : Bytes)
    (epoch : U64) (config : AvailabilityConfig) :
    (∀ calls, SignedBy hashes sphincs signed (.new hashes sk pk epoch config) calls →
      (∀ call ∈ calls, CarriesKeyHash hashes sphincs call) → ∀ n blockId active,
        let count := ((layerAt hashes sphincs (.new hashes sk pk epoch config) calls n).queryAvailability blockId
          active).attestingValidatorCount
        (count.toNat : ℕ∞) ≤ (Signers hashes signed blockId).encard ∧
          ∀ coalition : Finset Bytes,
            (count.toNat : ℕ∞) ≤ coalition.card + (Signers hashes signed blockId \ coalition).encard) ∧
    ∀ around att, acceptsAttestation hashes sphincs att = true → ∀ replays : List Hash32, replays.Nodup →
      replays.length < 2 ^ 32 → ∀ active,
        ((layerAt hashes sphincs (.new hashes sk pk epoch config)
          (replays.map fun h => .message around (.batchAttestation (att.under h))) replays.length).queryAvailability
            att.blockId active).attestingValidatorCount.toNat = replays.length := by
  constructor
  · intro calls holders carries n blockId active
    have accounted := (accounted_layerAt holders carries rfl (accounted_new epoch) n).1
    have bound := accounted.count_le blockId active
      (layerAt hashes sphincs (.new hashes sk pk epoch config) calls n).config.requiredThresholdBps
    refine ⟨bound, fun coalition => ?_⟩
    calc _ ≤ (Signers hashes signed blockId).encard := bound
      _ ≤ (↑coalition ∪ Signers hashes signed blockId \ ↑coalition).encard := by
          refine encard_le_encard ?_
          rw [union_sdiff_self]
          exact subset_union_right
      _ ≤ (↑coalition : Set Bytes).encard + (Signers hashes signed blockId \ ↑coalition).encard := encard_union_le _ _
      _ = coalition.card + (Signers hashes signed blockId \ ↑coalition).encard := by
          rw [encard_coe_eq_coe_finsetCard]
  · intro around att accepted replays distinct few active
    have counts := countIn_replays accepted around replays (.new hashes sk pk epoch config) distinct rfl
      fun h _ member => by cases member
    rw [queryAvailability, attestingValidatorCount_eq, layerAt, List.take_of_length_le (by rw [List.length_map])]
    refine (congrArg BitVec.toNat counts).trans ?_
    change (0#32 + BitVec.ofNat 32 replays.length).toNat = replays.length
    rw [BitVec.zero_add, BitVec.toNat_ofNat, Nat.mod_eq_of_lt few]

/-- One bit, signed with one key. -/
def loneAttestation : BatchBlockAttestation where
  blockId := ⟨1, Vector.replicate 32 0⟩
  sigCommitmentRoot := Vector.replicate 32 0
  attestedBitmap := ⟨[1], 1⟩
  attestedCount := 1
  validatorPkHash := pkToHash lastHashes [1]
  attestationSig := []
  validatorPk := [1]

/-- A scheme in which nothing but the attestation was ever signed. -/
def loneSphincs : Sphincs where
  publicKey _ := .ok ()
  secretKey _ := .ok ()
  detachedSignature _ := .ok ()
  detachedSign _ _ := []
  verifyDetachedSignature _ msg pk := pk = [1] ∧ msg = loneAttestation.payload lastHashes

def silence : Surroundings := ⟨fun _ => none, fun _ => none, fun _ => false⟩

/-- The attestation, and once more under a hash that is not of its key. -/
def countedTwice : List LayerCall :=
  [.message silence (.batchAttestation loneAttestation),
    .message silence (.batchAttestation (loneAttestation.under (Vector.replicate 32 7)))]

/-- One key signed, and two attestors are counted. -/
theorem loneAttestation_counted_twice :
    SignedBy lastHashes loneSphincs {([1], loneAttestation.payload lastHashes)} (.new lastHashes [] [2] 0 {}) countedTwice ∧
      (Signers lastHashes {([1], loneAttestation.payload lastHashes)} loneAttestation.blockId).encard = 1 ∧
      ((layerAt lastHashes loneSphincs (.new lastHashes [] [2] 0 {}) countedTwice 2).queryAvailability
        loneAttestation.blockId 3).attestingValidatorCount = 2 := by
  refine ⟨⟨fun pk msg sig verified => ?_, fun n around ann att here _ => ?_⟩, ?_, by decide +kernel⟩
  · have fields : pk = [1] ∧ msg = loneAttestation.payload lastHashes := of_decide_eq_true verified
    rw [fields.1, fields.2]
    exact rfl
  · rcases n with _ | _ | n <;> cases here
  · have one : Signers lastHashes {([1], loneAttestation.payload lastHashes)} loneAttestation.blockId = {[1]} := by
      ext pk
      constructor
      · rintro ⟨_, _, _, same⟩
        exact congrArg Prod.fst same
      · rintro rfl
        exact ⟨_, _, _, rfl⟩
    rw [one, encard_singleton]

end Bleep.Availability
