import Bleep.Crypto
import Bleep.Library.Bitfield
import Bleep.Library.HashTable

namespace Bleep.Availability

open HashTable Bitfield Words BitVec

structure BlockId where
  height : U64
  blockHash : Hash32
deriving DecidableEq

/-- Which transactions of a block were verified. A bitmap that comes from the
network may have any number of bytes. -/
structure TxBitmap where
  bits : Bytes
  capacity : U32

/-- `div_ceil(8)`. -/
def byteCount (capacity : U32) : ℕ := (capacity.toNat + 7) / 8

namespace TxBitmap

variable (txCount : U32)

def new : TxBitmap := ⟨List.replicate (byteCount txCount) 0, txCount⟩

variable (self : TxBitmap)

/-- Used for bitmaps that were made by `new`, where the byte exists. -/
def set (txIndex : U32) : TxBitmap :=
  if self.capacity ≤ txIndex then self else { self with bits := setBit self.bits txIndex.toNat }

def countSet : U32 := (self.bits.map fun byte => BitVec.ofNat 32 (countOnes byte)).foldl (· + ·) 0

def isEmpty : Bool := self.bits.all (· == 0)

def merge (self other : TxBitmap) : TxBitmap :=
  let grown := if self.capacity < other.capacity then
    ⟨resize self.bits (byteCount other.capacity), other.capacity⟩ else self
  { grown with bits := orInto grown.bits other.bits }

def hash (hashes : Hashes) (self : TxBitmap) : Hash32 := hashes.sha3 (utf8 "bleep_tx_bitmap_v1" ++ self.bits)

/-- As many bytes as the capacity asks for. -/
def Sized : Prop := self.bits.length = byteCount self.capacity

/-- No bit is set beyond the bytes that the capacity asks for. -/
def Framed : Prop := ∀ p, bit self.bits p = true → p / 8 < byteCount self.capacity

theorem sized_new : (new txCount).Sized := List.length_replicate

theorem bit_new (p : ℕ) : bit (new txCount).bits p = false := bit_replicate _ p

theorem toNat_countSet : self.countSet.toNat = ones self.bits % 2 ^ 32 := by
  have small (byte : UInt8) : (BitVec.ofNat 32 (countOnes byte)).toNat = countOnes byte := by
    have bound : countOnes byte ≤ 8 := List.countP_le_length
    exact Nat.mod_eq_of_lt (by omega)
  rw [countSet, toNat_foldl_add, List.map_map]
  congr 2
  exact List.map_congr_left fun byte _ => small byte

theorem capacity_set (txIndex : U32) : (self.set txIndex).capacity = self.capacity := by
  unfold set
  split <;> rfl

/-- A bitmap with no bit beyond its capacity. -/
structure Bounded (bitmap : TxBitmap) : Prop where
  sized : bitmap.Sized
  below : ∀ p, bit bitmap.bits p = true → p < bitmap.capacity.toNat

theorem bounded_new : (new txCount).Bounded where
  sized := sized_new txCount
  below p set := by
    rw [bit_new] at set
    cases set

theorem Bounded.set {self : TxBitmap} (bounded : self.Bounded) (txIndex : U32) : (self.set txIndex).Bounded := by
  unfold TxBitmap.set
  split
  · exact bounded
  rename_i inside
  rw [BitVec.not_le, BitVec.lt_def] at inside
  refine ⟨(length_setBit _ _).trans bounded.sized, fun p set => ?_⟩
  rcases bit_setBit set with old | rfl
  · exact bounded.below p old
  · exact inside

theorem Bounded.framed {self : TxBitmap} (bounded : self.Bounded) : self.Framed := by
  intro p set
  have below := bounded.below p set
  unfold byteCount
  omega

section Merge

variable {self other : TxBitmap} (sized : self.Sized)

include sized in
theorem sized_merge : (self.merge other).Sized := by
  unfold Sized merge
  simp only [length_orInto]
  split
  · exact length_resize _ _
  · exact sized

include sized in
/-- Merging is union, where nothing is set beyond the capacity. -/
theorem bit_merge (framed : other.Framed) (p : ℕ) :
    bit (self.merge other).bits p = (bit self.bits p || bit other.bits p) := by
  unfold merge
  simp only [bit_orInto]
  have kept {length : ℕ} (enough : byteCount other.capacity ≤ length) :
      (bit other.bits p && decide (p / 8 < length)) = bit other.bits p := by
    cases set : bit other.bits p with
    | false => rfl
    | true =>
      rw [Bool.true_and, decide_eq_true_eq]
      exact Nat.lt_of_lt_of_le (framed p set) enough
  split
  · rename_i larger
    rw [BitVec.lt_def] at larger
    have grows : self.bits.length ≤ byteCount other.capacity := by
      rw [sized]
      unfold byteCount
      omega
    rw [bit_resize grows, kept (length_resize _ _).ge]
  · rename_i enough
    rw [BitVec.lt_def] at enough
    rw [kept]
    rw [sized]
    unfold byteCount
    omega

end Merge

end TxBitmap

structure SigCommitmentAnnouncement where
  blockId : BlockId
  sigCommitmentRoot : Hash32
  sigCount : U32
  sigHashes : List Hash32
  proposerSig : Bytes
  proposerPk : Bytes

def SigCommitmentAnnouncement.signingPayload (hashes : Hashes) (blockId : BlockId) (root : Hash32) (count : U32) :
    Bytes :=
  (hashes.sha3 (utf8 "bleep_sal_announcement_v1" ++ le64 blockId.height ++ blockId.blockHash.toList ++ root.toList
    ++ le32 count)).toList

structure BatchBlockAttestation where
  blockId : BlockId
  sigCommitmentRoot : Hash32
  attestedBitmap : TxBitmap
  attestedCount : U32
  validatorPkHash : Hash32
  attestationSig : Bytes
  validatorPk : Bytes

def BatchBlockAttestation.signingPayload (hashes : Hashes) (blockId : BlockId) (sigCommitmentRoot : Hash32)
    (attestedCount : U32) (bitmapHash : Hash32) : Bytes :=
  (hashes.sha3 (utf8 "bleep_batch_attestation_v1" ++ le64 blockId.height ++ blockId.blockHash.toList
    ++ sigCommitmentRoot.toList ++ le32 attestedCount ++ bitmapHash.toList)).toList

structure SigRetrievalRequest where
  blockId : BlockId
  txIndex : U32

structure SigRetrievalResponse where
  blockId : BlockId
  txIndex : U32
  fullSig : Bytes
  txSignerPk : Bytes

inductive SigAvailabilityMessage
  | announcement (ann : SigCommitmentAnnouncement)
  | batchAttestation (att : BatchBlockAttestation)
  | retrievalRequest (req : SigRetrievalRequest)
  | retrievalResponse (resp : SigRetrievalResponse)

structure BlockSigAvailabilityStatus where
  blockId : BlockId
  sigCommitmentRoot : Hash32
  totalTxs : U32
  coveredTxs : U32
  txCoverageBps : U32
  activeValidatorCount : U32
  attestingValidatorCount : U32
  validatorCoverageBps : U32
  thresholdMet : Bool

structure BlockKey where
  epoch : U64
  blockHeight : U64
  blockHash : Hash32
deriving DecidableEq

structure BatchKey where
  epoch : U64
  blockHeight : U64
  blockHash : Hash32
  validatorPkHash : Hash32
deriving DecidableEq

/-- `BlockKey::from`. -/
def blockKey (epoch : U64) (id : BlockId) : BlockKey := ⟨epoch, id.height, id.blockHash⟩

/-- `BatchKey::from`. -/
def batchKey (epoch : U64) (id : BlockId) (validatorPkHash : Hash32) : BatchKey :=
  ⟨epoch, id.height, id.blockHash, validatorPkHash⟩

structure MergedBitmapState where
  merged : TxBitmap
  attestorCount : U32

structure FullSigCacheEntry where
  fullSig : Bytes
  txSignerPk : Bytes

def maxFullSigCache : ℕ := 512

structure SigAvailabilityStore where
  currentEpoch : U64
  announcements : HashMap BlockKey SigCommitmentAnnouncement
  batchAttestations : HashMap BatchKey BatchBlockAttestation
  mergedStates : HashMap BlockKey MergedBitmapState
  fullSigCache : HashMap (U64 × U64 × Hash32 × U32) FullSigCacheEntry

namespace SigAvailabilityStore

def new (currentEpoch : U64) : SigAvailabilityStore := ⟨currentEpoch, ∅, ∅, ∅, ∅⟩

variable (self : SigAvailabilityStore)

def advanceEpoch (newEpoch : U64) : SigAvailabilityStore :=
  if newEpoch ≤ self.currentEpoch then self else
    { currentEpoch := newEpoch
      announcements := retain (fun key => decide (newEpoch ≤ key.epoch)) self.announcements
      batchAttestations := retain (fun key => decide (newEpoch ≤ key.epoch)) self.batchAttestations
      mergedStates := retain (fun key => decide (newEpoch ≤ key.epoch)) self.mergedStates
      fullSigCache := retain (fun key => decide (newEpoch ≤ key.1)) self.fullSigCache }

/-- The first announcement of a block is replaced by one with more
signatures. -/
def storeAnnouncement (ann : SigCommitmentAnnouncement) : SigAvailabilityStore :=
  let key := blockKey self.currentEpoch ann.blockId
  { self with
    mergedStates := match self.mergedStates.lookup key with
      | some _ => self.mergedStates
      | none => self.mergedStates.insert key ⟨.new ann.sigCount, 0⟩
    announcements := match self.announcements.lookup key with
      | some existing =>
        if existing.sigCount < ann.sigCount then self.announcements.insert key ann else self.announcements
      | none => self.announcements.insert key ann }

variable (blockId : BlockId)

def getAnnouncement : Option SigCommitmentAnnouncement :=
  self.announcements.lookup (blockKey self.currentEpoch blockId)

def getCommittedSigHash (txIndex : U32) : Option Hash32 :=
  (self.getAnnouncement blockId).bind fun ann => ann.sigHashes[txIndex.toNat]?

def mergedFor (att : BatchBlockAttestation) : MergedBitmapState :=
  let annSigCount := ((self.getAnnouncement att.blockId).map SigCommitmentAnnouncement.sigCount).getD
    att.attestedBitmap.capacity
  (self.mergedStates.lookup (blockKey self.currentEpoch att.blockId)).getD ⟨.new annSigCount, 0⟩

/-- The flag says whether the attestation is the first of its validator. -/
def recordBatchAttestation (att : BatchBlockAttestation) : Bool × SigAvailabilityStore :=
  let key := batchKey self.currentEpoch att.blockId att.validatorPkHash
  if (self.batchAttestations.lookup key).isSome then (false, self) else
    let state := self.mergedFor att
    (true, { self with
      batchAttestations := self.batchAttestations.insert key att
      mergedStates := self.mergedStates.insert (blockKey self.currentEpoch att.blockId)
        ⟨state.merged.merge att.attestedBitmap, state.attestorCount + 1⟩ })

def attestorCount (self : SigAvailabilityStore) (blockId : BlockId) : U32 :=
  ((self.mergedStates.lookup (blockKey self.currentEpoch blockId)).map MergedBitmapState.attestorCount).getD 0

def cacheFullSig (txIndex : U32) (fullSig txSignerPk : Bytes) :
    SigAvailabilityStore :=
  let key := (self.currentEpoch, blockId.height, blockId.blockHash, txIndex)
  if maxFullSigCache ≤ self.fullSigCache.entries.length ∨ (self.fullSigCache.lookup key).isSome then self else
    { self with fullSigCache := self.fullSigCache.insert key ⟨fullSig, txSignerPk⟩ }

/-- A part of a whole in basis points. -/
def coverageBps (part whole : U32) : U32 :=
  if 0 < whole then ((part.setWidth 64 * 10000) / whole.setWidth 64 : U64).setWidth 32 else 0

def availabilityStatus (activeValidatorCount : U32)
    (requiredThresholdBps : U32) : BlockSigAvailabilityStatus :=
  let (totalTxs, sigCommitmentRoot) := ((self.getAnnouncement blockId).map fun ann =>
    (ann.sigCount, ann.sigCommitmentRoot)).getD (0, Vector.replicate 32 0)
  let (coveredTxs, attestorCount) := ((self.mergedStates.lookup (blockKey self.currentEpoch blockId)).map fun state =>
    (state.merged.countSet, state.attestorCount)).getD (0, 0)
  let txCoverageBps := coverageBps coveredTxs totalTxs
  let validatorCoverageBps := coverageBps attestorCount activeValidatorCount
  { blockId
    sigCommitmentRoot
    totalTxs
    coveredTxs
    txCoverageBps
    activeValidatorCount
    attestingValidatorCount := attestorCount
    validatorCoverageBps
    thresholdMet := requiredThresholdBps ≤ txCoverageBps && requiredThresholdBps ≤ validatorCoverageBps }

theorem toNat_coverageBps_le {part whole} (covered : part.toNat ≤ whole.toNat) :
    (coverageBps part whole).toNat ≤ 10000 := by
  have width : (part.setWidth 64).toNat = part.toNat := by
    rw [toNat_setWidth]
    omega
  have width' : (whole.setWidth 64).toNat = whole.toNat := by
    rw [toNat_setWidth]
    omega
  have scale : (10000 : U64).toNat = 10000 := rfl
  unfold coverageBps
  split
  · have product : (part.setWidth 64 * 10000 : U64).toNat = part.toNat * 10000 := by
      rw [toNat_mul, width, scale]
      omega
    have ratio : part.toNat * 10000 / whole.toNat ≤ 10000 := by
      refine Nat.div_le_of_le_mul ?_
      omega
    rw [toNat_setWidth, toNat_udiv, product, width']
    exact (Nat.mod_le _ _).trans ratio
  · exact Nat.zero_le _

end SigAvailabilityStore

end Bleep.Availability
