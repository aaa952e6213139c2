import Bleep.Availability.Attestors

namespace Bleep.Availability

open HashTable Words Bitfield SigAvailabilityStore SigAvailabilityLayer SigAvailabilityMessage TxBitmap List Option List

namespace SigAvailabilityStore

variable (store : SigAvailabilityStore)

def bitsIn (epoch : U64) (blockId : BlockId) : Bytes :=
  ((store.mergedStates.lookup (blockKey epoch blockId)).map fun state => state.merged.bits).getD []

def coveredIn (epoch : U64) (blockId : BlockId) : U32 :=
  ((store.mergedStates.lookup (blockKey epoch blockId)).map fun state => state.merged.countSet).getD 0

theorem toNat_coveredIn (epoch : U64) (blockId : BlockId) :
    (store.coveredIn epoch blockId).toNat = ones (store.bitsIn epoch blockId) % 2 ^ 32 := by
  unfold coveredIn bitsIn
  cases store.mergedStates.lookup (blockKey epoch blockId) with
  | none => rfl
  | some state => exact state.merged.toNat_countSet

theorem availabilityStatus_congr {store store' : SigAvailabilityStore} {blockId}
    (header : (store.getAnnouncement blockId).map (fun ann => (ann.sigCount, ann.sigCommitmentRoot)) =
      (store'.getAnnouncement blockId).map fun ann => (ann.sigCount, ann.sigCommitmentRoot))
    (covered : store.coveredIn store.currentEpoch blockId = store'.coveredIn store'.currentEpoch blockId)
    (counted : store.countIn store.currentEpoch blockId = store'.countIn store'.currentEpoch blockId)
    (active threshold : U32) :
    store.availabilityStatus blockId active threshold = store'.availabilityStatus blockId active threshold := by
  have pair (store : SigAvailabilityStore) :
      ((store.mergedStates.lookup (blockKey store.currentEpoch blockId)).map fun state =>
        (state.merged.countSet, state.attestorCount)).getD (0, 0) =
        (store.coveredIn store.currentEpoch blockId, store.countIn store.currentEpoch blockId) := by
    unfold coveredIn countIn
    cases store.mergedStates.lookup (blockKey store.currentEpoch blockId) <;> rfl
  unfold availabilityStatus
  simp only [pair, header, covered, counted]

end SigAvailabilityStore

/-- What the store holds of a block after some announcements and attestations,
in whatever order they came. -/
structure Summary (epoch : U64) (blockId : BlockId) (anns : List SigCommitmentAnnouncement)
    (atts : List BatchBlockAttestation) (store : SigAvailabilityStore) : Prop where
  epoch_eq : store.currentEpoch = epoch
  announced : ∀ ann, store.getAnnouncement blockId = some ann → ann ∈ anns
  unannounced : store.getAnnouncement blockId = none → anns = []
  recorded : ∀ h, h ∈ store.recordedIn epoch blockId ↔ ∃ att ∈ atts, att.validatorPkHash = h
  counted : store.countIn epoch blockId = BitVec.ofNat 32 (atts.map BatchBlockAttestation.validatorPkHash).toFinset.card
  sized : ∀ state, store.mergedStates.lookup (blockKey epoch blockId) = some state → state.merged.Sized
  covered : ∀ p, bit (store.bitsIn epoch blockId) p = true ↔ ∃ att ∈ atts, bit att.attestedBitmap.bits p = true

namespace Summary

variable {epoch : U64} {blockId : BlockId} {anns anns' : List SigCommitmentAnnouncement}
  {atts atts' : List BatchBlockAttestation} {store store' : SigAvailabilityStore}

section
variable (summary : Summary epoch blockId anns atts store)
include summary

theorem congr (sameAnns : ∀ ann, ann ∈ anns ↔ ann ∈ anns') (sameAtts : ∀ att, att ∈ atts ↔ att ∈ atts')
    : Summary epoch blockId anns' atts' store where
  epoch_eq := summary.epoch_eq
  announced ann found := (sameAnns ann).mp (summary.announced ann found)
  unannounced none := by
    refine eq_nil_iff_forall_not_mem.mpr fun ann member => ?_
    have before := (sameAnns ann).mpr member
    rw [summary.unannounced none] at before
    cases before
  recorded h := by simp only [summary.recorded, sameAtts]
  counted := by
    rw [summary.counted]
    congr 2
    ext h
    simp [sameAtts]
  sized := summary.sized
  covered p := by simp only [summary.covered, sameAtts]

theorem of_same (same : SameTables store store') : Summary epoch blockId anns atts store' := by
  have announcement : store'.getAnnouncement blockId = store.getAnnouncement blockId := by
    rw [getAnnouncement, same.announcements, same.currentEpoch, getAnnouncement]
  constructor
  · exact same.currentEpoch.trans summary.epoch_eq
  · rw [announcement]
    exact summary.announced
  · rw [announcement]
    exact summary.unannounced
  · rw [recordedIn, same.batchAttestations]
    exact summary.recorded
  · rw [countIn, same.mergedStates]
    exact summary.counted
  · rw [same.mergedStates]
    exact summary.sized
  · rw [bitsIn, same.mergedStates]
    exact summary.covered

theorem storeAnnouncement {ann} (here : ann.blockId = blockId)
    : Summary epoch blockId (ann :: anns) atts (store.storeAnnouncement ann) := by
  obtain ⟨rfl, announced, unannounced, recorded, counted, sized, covered⟩ := summary
  subst here
  have lookup : (store.storeAnnouncement ann).getAnnouncement ann.blockId = some ann ∨
      (store.storeAnnouncement ann).getAnnouncement ann.blockId = store.getAnnouncement ann.blockId ∧
        store.getAnnouncement ann.blockId ≠ none := by
    unfold getAnnouncement SigAvailabilityStore.storeAnnouncement
    simp only
    split
    · rename_i existing found
      split
      · exact .inl (AList.lookup_insert _)
      · exact .inr ⟨rfl, by rw [found]; exact some_ne_none existing⟩
    · exact .inl (AList.lookup_insert _)
  have merged : (store.storeAnnouncement ann).mergedStates.lookup (blockKey store.currentEpoch ann.blockId) =
      some ((store.mergedStates.lookup (blockKey store.currentEpoch ann.blockId)).getD ⟨.new ann.sigCount, 0⟩) := by
    unfold SigAvailabilityStore.storeAnnouncement
    simp only
    split
    · rename_i found
      rw [found]
      rfl
    · rename_i absent
      rw [AList.lookup_insert, absent]
      rfl
  constructor
  · rfl
  · intro ann' found
    rcases lookup with new | ⟨old, -⟩
    · obtain rfl := some.inj (new.symm.trans found)
      exact List.mem_cons_self
    · exact mem_cons_of_mem _ (announced ann' (old.symm.trans found))
  · intro none
    rcases lookup with new | ⟨old, some⟩
    · rw [new] at none
      cases none
    · exact absurd (old.symm.trans none) some
  · exact recorded
  · rw [countIn, merged, ← counted, countIn]
    cases store.mergedStates.lookup (blockKey store.currentEpoch ann.blockId) <;> rfl
  · intro state found
    rw [merged] at found
    cases found
    cases before : store.mergedStates.lookup (blockKey store.currentEpoch ann.blockId) with
    | none => exact sized_new ann.sigCount
    | some state => exact sized state before
  · intro p
    rw [← covered, bitsIn, merged, bitsIn]
    cases store.mergedStates.lookup (blockKey store.currentEpoch ann.blockId) with
    | none =>
      change bit (new ann.sigCount).bits p = true ↔ bit [] p = true
      rw [bit_new, bit_nil]
    | some state => rfl

theorem record {att} (here : att.blockId = blockId) (framed : att.attestedBitmap.Framed)
    (single : ∀ att' ∈ atts, att'.validatorPkHash = att.validatorPkHash →
      ∀ p, bit att'.attestedBitmap.bits p = bit att.attestedBitmap.bits p) :
    Summary epoch blockId anns (att :: atts) (store.recordBatchAttestation att).2 := by
  obtain ⟨rfl, announced, unannounced, recorded, counted, sized, covered⟩ := summary
  subst here
  by_cases known : att.validatorPkHash ∈ store.recordedIn store.currentEpoch att.blockId
  · -- a second attestation of the hash adds nothing
    obtain ⟨att', member, same⟩ := (recorded _).mp known
    rw [record_of_known known]
    refine ⟨rfl, announced, unannounced, fun h => ?_, ?_, sized, fun p => ?_⟩
    · simp only [recorded, List.mem_cons, exists_eq_or_imp]
      refine ⟨.inr, ?_⟩
      rintro (rfl | other)
      · exact ⟨att', member, same⟩
      · exact other
    · have inside : att.validatorPkHash ∈ (atts.map BatchBlockAttestation.validatorPkHash).toFinset :=
        List.mem_toFinset.mpr (List.mem_map.mpr ⟨att', member, same⟩)
      rw [counted, map_cons, toFinset_cons, Finset.insert_eq_of_mem inside]
    · simp only [covered, List.mem_cons, exists_eq_or_imp]
      refine ⟨.inr, ?_⟩
      rintro (set | other)
      · exact ⟨att', member, (single att' member same p).trans set⟩
      · exact other
  · obtain ⟨counts, records⟩ := countIn_record known
    obtain ⟨sameEpoch, sameAnnouncements⟩ := @record_header store att
    have before : (store.mergedFor att).merged.Sized ∧
        ∀ p, bit (store.mergedFor att).merged.bits p = bit (store.bitsIn store.currentEpoch att.blockId) p := by
      unfold mergedFor bitsIn
      cases found : store.mergedStates.lookup (blockKey store.currentEpoch att.blockId) with
      | none => exact ⟨sized_new _, fun p => (bit_new _ p).trans (bit_nil p).symm⟩
      | some state => exact ⟨sized state found, fun p => rfl⟩
    have merged : (store.recordBatchAttestation att).2.mergedStates.lookup (blockKey store.currentEpoch att.blockId) =
        some ⟨(store.mergedFor att).merged.merge att.attestedBitmap, (store.mergedFor att).attestorCount + 1⟩ := by
      rw [record_of_new known]
      exact AList.lookup_insert _
    have header : (store.recordBatchAttestation att).2.getAnnouncement att.blockId =
        store.getAnnouncement att.blockId := by
      rw [getAnnouncement, sameEpoch, sameAnnouncements, getAnnouncement]
    refine ⟨sameEpoch, ?_, ?_, fun h => ?_, ?_, fun state found => ?_, fun p => ?_⟩
    · rw [header]
      exact announced
    · rw [header]
      exact unannounced
    · rw [records, Set.mem_insert_iff, recorded, eq_comm]
      simp
    · have outside : att.validatorPkHash ∉ (atts.map BatchBlockAttestation.validatorPkHash).toFinset := by
        intro member
        obtain ⟨att', member, same⟩ := List.mem_map.mp (List.mem_toFinset.mp member)
        exact known ((recorded _).mpr ⟨att', member, same⟩)
      rw [counts, counted, map_cons, toFinset_cons, Finset.card_insert_of_notMem outside, BitVec.ofNat_add]
      rfl
    · obtain rfl := some.inj (merged.symm.trans found)
      exact sized_merge before.1
    · rw [bitsIn, merged]
      change bit ((store.mergedFor att).merged.merge att.attestedBitmap).bits p = true ↔ _
      rw [bit_merge before.1 framed, before.2, Bool.or_eq_true, covered, or_comm]
      simp

/-- The status is a function of the two lists. -/
theorem status_eq (summary' : Summary epoch blockId anns atts store')
    (agreed : ∀ ann ∈ anns, ∀ ann' ∈ anns, ann.sigCommitmentRoot = ann'.sigCommitmentRoot ∧ ann.sigCount = ann'.sigCount)
    (active threshold : U32) :
    store.availabilityStatus blockId active threshold = store'.availabilityStatus blockId active threshold := by
  refine availabilityStatus_congr ?_ ?_ ?_ active threshold
  · cases found : store.getAnnouncement blockId with
    | none =>
      cases found' : store'.getAnnouncement blockId with
      | none => rfl
      | some ann' =>
        have listed := summary'.announced ann' found'
        rw [summary.unannounced found] at listed
        cases listed
    | some ann =>
      have listed := summary.announced ann found
      cases found' : store'.getAnnouncement blockId with
      | none =>
        rw [summary'.unannounced found'] at listed
        cases listed
      | some ann' =>
        obtain ⟨root, count⟩ := agreed ann listed ann' (summary'.announced ann' found')
        rw [map_some, map_some, root, count]
  · rw [summary.epoch_eq, summary'.epoch_eq]
    refine BitVec.eq_of_toNat_eq ?_
    have same : ones (store.bitsIn epoch blockId) = ones (store'.bitsIn epoch blockId) :=
      ones_eq_of_bit fun p => Bool.eq_iff_iff.mpr ((summary.covered p).trans (summary'.covered p).symm)
    rw [toNat_coveredIn, toNat_coveredIn, same]
  · rw [summary.epoch_eq, summary'.epoch_eq, summary.counted, summary'.counted]

theorem covered_le (agreed : ∀ ann ∈ anns, ∀ ann' ∈ anns, ann.sigCount = ann'.sigCount)
    (within : ∀ att ∈ atts, ∀ p, bit att.attestedBitmap.bits p = true → ∃ ann ∈ anns, p < ann.sigCount.toNat) :
    (store.coveredIn store.currentEpoch blockId).toNat ≤
      (((store.getAnnouncement blockId).map SigCommitmentAnnouncement.sigCount).getD 0).toNat := by
  rw [summary.epoch_eq, toNat_coveredIn]
  refine (Nat.mod_le _ _).trans (ones_le fun p set => ?_)
  obtain ⟨att, member, inside⟩ := (summary.covered p).mp set
  obtain ⟨ann, listed, below⟩ := within att member p inside
  cases found : store.getAnnouncement blockId with
  | none =>
    rw [summary.unannounced found] at listed
    cases listed
  | some ann' =>
    rw [map_some, getD_some, ← agreed ann listed ann' (summary.announced ann' found)]
    exact below

end

end Summary

section Messages

variable (hashes : Hashes) (sphincs : Sphincs)

/-- A message for the block that passes its own checks. -/
def ValidFor (blockId : BlockId) : SigAvailabilityMessage → Prop
  | .announcement ann => ann.blockId = blockId ∧ acceptsAnnouncement hashes sphincs ann = true
  | .batchAttestation att => att.blockId = blockId ∧ acceptsAttestation hashes sphincs att = true
  | _ => False

def announcementsOf (msgs : List SigAvailabilityMessage) : List SigCommitmentAnnouncement :=
  msgs.filterMap fun
    | .announcement ann => some ann
    | _ => none

variable (start : SigAvailabilityLayer) (around : Surroundings)

/-- What the layer attests itself when it gets the announcement. -/
def ownAttestation (ann : SigCommitmentAnnouncement) : Option BatchBlockAttestation :=
  start.sentAttestation hashes sphincs around ann (coverTxs hashes around ann start.store).2

def attestationsIn : SigAvailabilityMessage → List BatchBlockAttestation
  | .announcement ann => (ownAttestation hashes sphincs start around ann).toList
  | .batchAttestation att => [att]
  | _ => []

/-- All attestations of the messages, the layer's own among them. -/
def attestationsOf (msgs : List SigAvailabilityMessage) : List BatchBlockAttestation :=
  msgs.flatMap (attestationsIn hashes sphincs start around)

/-- The messages agree: the announcements in what they announce, the
attestations that are received in the announced root, and all attestations of
one hash in their bits; and no bit that is received stands for a transaction
that is not announced. -/
structure Agree (msgs : List SigAvailabilityMessage) : Prop where
  announced : ∀ ann ∈ announcementsOf msgs, ∀ ann' ∈ announcementsOf msgs,
    ann.sigCommitmentRoot = ann'.sigCommitmentRoot ∧ ann.sigCount = ann'.sigCount ∧ ann.sigHashes = ann'.sigHashes
  rooted : ∀ ann ∈ announcementsOf msgs, ∀ att, .batchAttestation att ∈ msgs →
    att.sigCommitmentRoot = ann.sigCommitmentRoot
  single : ∀ att ∈ attestationsOf hashes sphincs start around msgs,
    ∀ att' ∈ attestationsOf hashes sphincs start around msgs, att.validatorPkHash = att'.validatorPkHash →
      ∀ p, bit att.attestedBitmap.bits p = bit att'.attestedBitmap.bits p
  framed : ∀ att, .batchAttestation att ∈ msgs → att.attestedBitmap.Framed
  within : ∀ att, .batchAttestation att ∈ msgs → ∀ p, bit att.attestedBitmap.bits p = true →
    ∃ ann ∈ announcementsOf msgs, p < ann.sigCount.toNat

/-- Nothing is known of the block yet. -/
structure Unseen (blockId : BlockId) : Prop where
  announcement : start.store.getAnnouncement blockId = none
  merged : start.store.mergedStates.lookup (blockKey start.store.currentEpoch blockId) = none
  recorded : start.store.recordedIn start.store.currentEpoch blockId = ∅
  attested : (blockId.height, blockId.blockHash) ∉ start.attestedBlocks

/-- The layer after the messages, in their order. -/
def afterMessages (msgs : List SigAvailabilityMessage) : SigAvailabilityLayer :=
  msgs.foldl (fun self msg => self.handleMessage hashes sphincs around msg) start

end Messages

variable {hashes : Hashes} {sphincs : Sphincs} {start : SigAvailabilityLayer} {around : Surroundings}
  {blockId : BlockId} {msgs msgs' done : List SigAvailabilityMessage} {ann : SigCommitmentAnnouncement}
  {att : BatchBlockAttestation}

theorem mem_announcementsOf : ann ∈ announcementsOf msgs ↔ announcement ann ∈ msgs := by
  unfold announcementsOf
  rw [mem_filterMap]
  constructor
  · rintro ⟨msg, member, same⟩
    cases msg with
    | announcement ann' =>
      cases same
      exact member
    | _ => cases same
  · intro member
    exact ⟨_, member, rfl⟩

theorem mem_attestationsOf :
    att ∈ attestationsOf hashes sphincs start around msgs ↔
      ∃ msg ∈ msgs, att ∈ attestationsIn hashes sphincs start around msg := mem_flatMap

theorem attestationsOf_cases (member : att ∈ attestationsOf hashes sphincs start around msgs) :
    .batchAttestation att ∈ msgs ∨ ∃ ann ∈ announcementsOf msgs,
      ownAttestation hashes sphincs start around ann = some att := by
  obtain ⟨msg, listed, inside⟩ := mem_attestationsOf.mp member
  cases msg with
  | announcement ann => exact .inr ⟨ann, mem_announcementsOf.mpr listed, mem_toList.mp inside⟩
  | batchAttestation att' =>
    obtain rfl := mem_singleton.mp inside
    exact .inl listed
  | retrievalRequest req => cases inside
  | retrievalResponse resp => cases inside

/-- What the layer attests has the announced root and no bit beyond what is
announced. -/
theorem ownAttestation_bounded (own : ownAttestation hashes sphincs start around ann = some att) :
    att.blockId = ann.blockId ∧ att.sigCommitmentRoot = ann.sigCommitmentRoot ∧ att.attestedBitmap.Bounded ∧
      att.attestedBitmap.capacity = ann.sigCount := by
  obtain ⟨block, root, bitmap, -⟩ := ok_buildBatchAttestation (sentAttestation_eq_some (own : start.sentAttestation .. = _))
  rw [bitmap]
  exact ⟨block, root, bounded_coverTxs around ann start.store⟩

namespace Agree

variable (agree : Agree hashes sphincs start around msgs) {att : BatchBlockAttestation}
  (member : att ∈ attestationsOf hashes sphincs start around msgs)

include agree member

theorem rooted_all {ann} (listed : ann ∈ announcementsOf msgs) :
    att.sigCommitmentRoot = ann.sigCommitmentRoot := by
  rcases attestationsOf_cases member with received | ⟨ann', listed', own⟩
  · exact agree.rooted ann listed att received
  · exact (ownAttestation_bounded own).2.1.trans (agree.announced ann' listed' ann listed).1

theorem framed_all : att.attestedBitmap.Framed := by
  rcases attestationsOf_cases member with received | ⟨ann, -, own⟩
  · exact agree.framed att received
  · exact (ownAttestation_bounded own).2.2.1.framed

theorem within_all {p} (set : bit att.attestedBitmap.bits p = true) :
    ∃ ann ∈ announcementsOf msgs, p < ann.sigCount.toNat := by
  rcases attestationsOf_cases member with received | ⟨ann, listed, own⟩
  · exact agree.within att received p set
  · obtain ⟨-, -, bounded, capacity⟩ := ownAttestation_bounded own
    exact ⟨ann, listed, capacity ▸ bounded.below p set⟩

end Agree

theorem ownAttestation_congr {ann'} (block : ann.blockId = ann'.blockId)
    (root : ann.sigCommitmentRoot = ann'.sigCommitmentRoot) (count : ann.sigCount = ann'.sigCount)
    (list : ann.sigHashes = ann'.sigHashes) :
    ownAttestation hashes sphincs start around ann = ownAttestation hashes sphincs start around ann' := by
  unfold ownAttestation sentAttestation coverTxs
  rw [block, root, count, list]

structure LayerSummary (hashes : Hashes) (sphincs : Sphincs) (start : SigAvailabilityLayer) (around : Surroundings)
    (blockId : BlockId) (done : List SigAvailabilityMessage) (layer : SigAvailabilityLayer) : Prop where
  store : Summary start.store.currentEpoch blockId (announcementsOf done)
    (attestationsOf hashes sphincs start around done) layer.store
  sent : ∀ ann bitmap, layer.sentAttestation hashes sphincs around ann bitmap =
    start.sentAttestation hashes sphincs around ann bitmap
  config : layer.config = start.config
  attested : (blockId.height, blockId.blockHash) ∈ layer.attestedBlocks →
    ∃ ann ∈ announcementsOf done, ∃ att, ownAttestation hashes sphincs start around ann = some att

theorem layerSummary_nil (unseen : Unseen start blockId) :
    LayerSummary hashes sphincs start around blockId [] start := by
  refine ⟨⟨rfl, ?_, fun _ => rfl, ?_, ?_, ?_, ?_⟩, fun _ _ => rfl, rfl, fun member => absurd member unseen.attested⟩
  · intro ann found
    rw [unseen.announcement] at found
    cases found
  · intro h
    rw [unseen.recorded]
    exact iff_of_false (Set.notMem_empty h) (by rintro ⟨att, member, -⟩; cases member)
  · rw [countIn, unseen.merged]
    rfl
  · intro state found
    rw [unseen.merged] at found
    cases found
  · intro p
    rw [bitsIn, unseen.merged]
    refine iff_of_false ?_ (by rintro ⟨att, member, -⟩; cases member)
    exact Bool.eq_false_iff.mp (bit_nil p)

section Step

variable {self : SigAvailabilityLayer} (agree : Agree hashes sphincs start around msgs)
  (subset : ∀ msg ∈ done, msg ∈ msgs)

include agree subset

theorem summary_record {store anns att} (here : att.blockId = blockId)
    (member : att ∈ attestationsOf hashes sphincs start around msgs)
    (before : Summary start.store.currentEpoch blockId anns (attestationsOf hashes sphincs start around done) store) :
    Summary start.store.currentEpoch blockId anns (att :: attestationsOf hashes sphincs start around done)
      (store.recordBatchAttestation att).2 := by
  refine before.record here (agree.framed_all member) fun att' earlier same => ?_
  obtain ⟨msg, old, inside⟩ := mem_attestationsOf.mp earlier
  exact agree.single att' (mem_attestationsOf.mpr ⟨msg, subset msg old, inside⟩) att member same

variable (summary : LayerSummary hashes sphincs start around blockId done self)

include summary

theorem layerSummary_attestation {att} (listed : .batchAttestation att ∈ msgs)
    (valid : ValidFor hashes sphincs blockId (.batchAttestation att)) :
    LayerSummary hashes sphincs start around blockId (.batchAttestation att :: done)
      (self.handleMessage hashes sphincs around (.batchAttestation att)) := by
  obtain ⟨here, accepted⟩ := valid
  have member : att ∈ attestationsOf hashes sphincs start around msgs :=
    mem_attestationsOf.mpr ⟨_, listed, mem_singleton.mpr rfl⟩
  have recorded : self.handleMessage hashes sphincs around (.batchAttestation att) =
      { self with store := (self.store.recordBatchAttestation att).2 } := by
    change self.handleBatchAttestation hashes sphincs att = _
    unfold handleBatchAttestation
    rw [accepted, here]
    simp only [Bool.not_true, Bool.false_eq_true, if_false]
    split
    · rename_i ann found
      rw [if_neg]
      have stored := summary.store.announced ann found
      have announced := subset _ (mem_announcementsOf.mp stored)
      exact fun differs => differs (agree.rooted ann (mem_announcementsOf.mpr announced) att listed)
    · rfl
  rw [recorded]
  exact ⟨summary_record agree subset here member summary.store, summary.sent, summary.config, summary.attested⟩

theorem layerSummary_announcement {ann} (listed : .announcement ann ∈ msgs)
    (blocks : ∀ ann' ∈ announcementsOf msgs, ann'.blockId = blockId)
    (valid : ValidFor hashes sphincs blockId (.announcement ann)) :
    LayerSummary hashes sphincs start around blockId (.announcement ann :: done)
      (self.handleMessage hashes sphincs around (.announcement ann)) := by
  obtain ⟨here, accepted⟩ := valid
  have stored := summary.store.storeAnnouncement here
  have atts : attestationsOf hashes sphincs start around (.announcement ann :: done) =
      (ownAttestation hashes sphincs start around ann).toList ++ attestationsOf hashes sphincs start around done := rfl
  change LayerSummary hashes sphincs start around blockId _ (self.handleAnnouncement hashes sphincs around ann)
  unfold handleAnnouncement
  rw [accepted, here]
  simp only [Bool.not_true, Bool.false_eq_true, if_false]
  split
  · -- the block was attested before, with the same attestation
    rename_i before
    obtain ⟨ann', earlier, att, own⟩ := summary.attested before
    have old := subset _ (mem_announcementsOf.mp earlier)
    have same : ownAttestation hashes sphincs start around ann = some att := by
      obtain ⟨root, count, list⟩ := agree.announced ann (mem_announcementsOf.mpr listed) ann' (mem_announcementsOf.mpr old)
      rw [ownAttestation_congr (here.trans (blocks ann' (mem_announcementsOf.mpr old)).symm) root count list, own]
    refine ⟨stored.congr (fun _ => Iff.rfl) fun att' => ?_, summary.sent, summary.config,
      fun _ => ⟨ann, mem_cons_self, att, same⟩⟩
    rw [atts, same, Option.toList_some, singleton_append, mem_cons]
    refine ⟨.inr, ?_⟩
    rintro (rfl | earlier')
    · refine mem_attestationsOf.mpr ⟨_, mem_announcementsOf.mp earlier, ?_⟩
      rw [attestationsIn, own]
      exact mem_singleton.mpr rfl
    · exact earlier'
  · have tables := @sameTables_coverTxs hashes around ann (self.store.storeAnnouncement ann)
    have sent : self.sentAttestation hashes sphincs around ann
        (coverTxs hashes around ann (self.store.storeAnnouncement ann)).2 =
        ownAttestation hashes sphincs start around ann := by
      rw [summary.sent, ownAttestation, bitmap_coverTxs around ann _ start.store]
    rw [sent]
    cases own : ownAttestation hashes sphincs start around ann with
    | none =>
      refine ⟨?_, summary.sent, summary.config, fun before => ?_⟩
      · rw [atts, own]
        exact stored.of_same tables
      · obtain ⟨ann', earlier, att, own⟩ := summary.attested before
        exact ⟨ann', mem_cons_of_mem _ earlier, att, own⟩
    | some att =>
      have member : att ∈ attestationsOf hashes sphincs start around msgs := by
        refine mem_attestationsOf.mpr ⟨_, listed, ?_⟩
        rw [attestationsIn, own]
        exact mem_singleton.mpr rfl
      refine ⟨?_, summary.sent, summary.config, fun _ => ⟨ann, mem_cons_self, att, own⟩⟩
      rw [atts, own]
      exact summary_record agree subset ((ownAttestation_bounded own).1.trans here) member (stored.of_same tables)

end Step

theorem layerSummary_afterMessages (unseen : Unseen start blockId)
    (valid : ∀ msg ∈ msgs, ValidFor hashes sphincs blockId msg) (agree : Agree hashes sphincs start around msgs)
    (done : List SigAvailabilityMessage) (subset : ∀ msg ∈ done, msg ∈ msgs) :
    LayerSummary hashes sphincs start around blockId done.reverse (afterMessages hashes sphincs start around done) := by
  rw [← reverse_reverse done, reverse_reverse done.reverse, afterMessages, foldl_reverse]
  replace subset : ∀ msg ∈ done.reverse, msg ∈ msgs := fun msg member => subset msg (mem_reverse.mp member)
  generalize done.reverse = done at subset ⊢
  induction done with
  | nil => exact layerSummary_nil unseen
  | cons msg done ih =>
    have before := fun msg' member => subset msg' (mem_cons_of_mem _ member)
    have listed := subset msg mem_cons_self
    have summary := ih before
    cases msg with
    | announcement ann =>
      refine layerSummary_announcement agree before summary listed (fun ann' member => ?_) (valid _ listed)
      exact (valid _ (mem_announcementsOf.mp member)).1
    | batchAttestation att => exact layerSummary_attestation agree before summary listed (valid _ listed)
    | retrievalRequest req => exact (valid _ listed).elim
    | retrievalResponse resp => exact (valid _ listed).elim

theorem status_fields (store : SigAvailabilityStore) (blockId : BlockId) (active threshold : U32) :
    let status := store.availabilityStatus blockId active threshold
    status.totalTxs = ((store.getAnnouncement blockId).map SigCommitmentAnnouncement.sigCount).getD 0 ∧
      (∀ ann, store.getAnnouncement blockId = some ann → status.sigCommitmentRoot = ann.sigCommitmentRoot) ∧
      status.coveredTxs = store.coveredIn store.currentEpoch blockId ∧
      status.txCoverageBps = coverageBps status.coveredTxs status.totalTxs := by
  unfold availabilityStatus coveredIn
  cases store.getAnnouncement blockId with
  | none =>
    refine ⟨rfl, fun ann absent => (by cases absent), ?_, rfl⟩
    cases store.mergedStates.lookup (blockKey store.currentEpoch blockId) <;> rfl
  | some ann =>
    refine ⟨rfl, fun ann' same => by cases same; rfl, ?_, rfl⟩
    cases store.mergedStates.lookup (blockKey store.currentEpoch blockId) <;> rfl

/-- The status of a block after messages for it that agree: the same in every
order, and with every repetition. It counts the validators of all attestations,
which have the announced root, and covers no more than what is announced. -/
theorem status_order_independent (hashes : Hashes) (sphincs : Sphincs) (start : SigAvailabilityLayer)
    (around : Surroundings) (blockId : BlockId) {msgs msgs' : List SigAvailabilityMessage}
    (unseen : Unseen start blockId) (valid : ∀ msg ∈ msgs, ValidFor hashes sphincs blockId msg)
    (agree : Agree hashes sphincs start around msgs) (same : ∀ msg, msg ∈ msgs' ↔ msg ∈ msgs) (active : U32) :
    let status := (afterMessages hashes sphincs start around msgs').queryAvailability blockId active
    status = (afterMessages hashes sphincs start around msgs).queryAvailability blockId active ∧
      status.attestingValidatorCount = BitVec.ofNat 32 ((attestationsOf hashes sphincs start around msgs).map
        BatchBlockAttestation.validatorPkHash).toFinset.card ∧
      (∀ ann ∈ announcementsOf msgs, ann.sigCommitmentRoot = status.sigCommitmentRoot ∧
        ∀ att ∈ attestationsOf hashes sphincs start around msgs, att.sigCommitmentRoot = status.sigCommitmentRoot) ∧
      status.coveredTxs.toNat ≤ status.totalTxs.toNat ∧ status.txCoverageBps.toNat ≤ 10000 := by
  -- only the set of the messages is left of them
  have gathered {arrival : List SigAvailabilityMessage} (same : ∀ msg, msg ∈ arrival ↔ msg ∈ msgs) :
      Summary start.store.currentEpoch blockId (announcementsOf msgs) (attestationsOf hashes sphincs start around msgs)
        (afterMessages hashes sphincs start around arrival).store :=
    (layerSummary_afterMessages unseen valid agree arrival fun msg => (same msg).mp).store.congr
      (fun ann => by rw [mem_announcementsOf, mem_reverse, same, mem_announcementsOf])
      fun att => by simp only [mem_attestationsOf, mem_reverse, same]
  have first := layerSummary_afterMessages unseen valid agree msgs' fun msg => (same msg).mp
  have second := layerSummary_afterMessages unseen valid agree msgs fun msg member => member
  have summary := gathered same
  obtain ⟨total, root, covered, bps⟩ := status_fields (afterMessages hashes sphincs start around msgs').store blockId active
    (afterMessages hashes sphincs start around msgs').config.requiredThresholdBps
  have bound : ((afterMessages hashes sphincs start around msgs').queryAvailability blockId active).coveredTxs.toNat ≤
      ((afterMessages hashes sphincs start around msgs').queryAvailability blockId active).totalTxs.toNat := by
    rw [queryAvailability, covered, total]
    exact summary.covered_le (fun ann listed ann' listed' => (agree.announced ann listed ann' listed').2.1)
      fun att member p set => agree.within_all member set
  refine ⟨?_, ?_, ?_, bound, ?_⟩
  · rw [queryAvailability, queryAvailability, first.config, second.config]
    refine summary.status_eq (gathered fun _ => Iff.rfl) (fun ann listed ann' listed' => ?_) _ _
    obtain ⟨sameRoot, sameCount, -⟩ := agree.announced ann listed ann' listed'
    exact ⟨sameRoot, sameCount⟩
  · rw [queryAvailability, attestingValidatorCount_eq, summary.epoch_eq]
    exact summary.counted
  · intro ann listed
    have rooted : ann.sigCommitmentRoot =
        ((afterMessages hashes sphincs start around msgs').queryAvailability blockId active).sigCommitmentRoot := by
      cases found : (afterMessages hashes sphincs start around msgs').store.getAnnouncement blockId with
      | none =>
        rw [summary.unannounced found] at listed
        cases listed
      | some ann' =>
        rw [queryAvailability, root ann' found]
        exact (agree.announced ann listed ann' (summary.announced ann' found)).1
    exact ⟨rooted, fun att member => (agree.rooted_all member listed).trans rooted⟩
  · rw [queryAvailability, bps]
    exact toNat_coverageBps_le bound

def oneBlock : BlockId := ⟨1, Vector.replicate 32 0⟩

def oneAnnounced : SigCommitmentAnnouncement where
  blockId := oneBlock
  sigCommitmentRoot := (SigCommitmentTree.new lastHashes [Vector.replicate 32 0]).root lastHashes
  sigCount := 1
  sigHashes := [Vector.replicate 32 0]
  proposerSig := []
  proposerPk := replicate 64 0

def attestsOne (root : Hash32) (bitmap : TxBitmap) : BatchBlockAttestation where
  blockId := oneBlock
  sigCommitmentRoot := root
  attestedBitmap := bitmap
  attestedCount := bitmap.countSet
  validatorPkHash := Vector.replicate 32 1
  attestationSig := []
  validatorPk := replicate 64 0

def emptyLayer : SigAvailabilityLayer := .new lastHashes [] [] 0 {}

theorem emptyLayer_unseen : Unseen emptyLayer oneBlock :=
  ⟨rfl, rfl, Set.eq_empty_of_forall_notMem fun h member => (by cases member), by decide⟩

theorem oneAnnounced_valid : ValidFor lastHashes sizedSphincs oneBlock (.announcement oneAnnounced) := by
  refine ⟨rfl, ?_⟩
  have root : verifyCommitmentRoot lastHashes oneAnnounced.sigCommitmentRoot oneAnnounced.sigHashes = true :=
    beq_self_eq_true _
  rw [acceptsAnnouncement, root, Bool.and_true]
  rfl

theorem attestsOne_valid (root : Hash32) (bitmap : TxBitmap) :
    ValidFor lastHashes sizedSphincs oneBlock (.batchAttestation (attestsOne root bitmap)) := by
  refine ⟨rfl, ?_⟩
  rw [acceptsAttestation, Bool.and_eq_true, decide_eq_true_eq]
  exact ⟨rfl, rfl⟩

theorem first_of_bit {p} (set : bit [1] p = true) : p = 0 := by
  have low : p < 8 := by
    by_contra beyond
    rw [bit_of_length_le (by simp; omega)] at set
    cases set
  interval_cases p <;> first | rfl | cases set

/-- The announcement and an attestation with its root, in the other order. -/
theorem oneAnnounced_either_order :
    (afterMessages lastHashes sizedSphincs emptyLayer silence
        [.batchAttestation (attestsOne oneAnnounced.sigCommitmentRoot ⟨[1], 1⟩), .announcement oneAnnounced]).queryAvailability
          oneBlock 3 =
      (afterMessages lastHashes sizedSphincs emptyLayer silence
        [.announcement oneAnnounced, .batchAttestation (attestsOne oneAnnounced.sigCommitmentRoot ⟨[1], 1⟩)]).queryAvailability
          oneBlock 3 := by
  refine (status_order_independent lastHashes sizedSphincs emptyLayer silence oneBlock emptyLayer_unseen ?_ ?_ ?_ 3).1
  · simp only [forall_mem_cons]
    exact ⟨oneAnnounced_valid, attestsOne_valid _ _, fun _ absent => by cases absent⟩
  · have received {att : BatchBlockAttestation} (member : batchAttestation att ∈
        [.announcement oneAnnounced, .batchAttestation (attestsOne oneAnnounced.sigCommitmentRoot ⟨[1], 1⟩)]) :
        att = attestsOne oneAnnounced.sigCommitmentRoot ⟨[1], 1⟩ := by simpa using member
    refine ⟨?_, fun ann listed att member => ?_, ?_, fun att member p set => ?_, fun att member p set => ?_⟩
    · simp [announcementsOf]
    · obtain rfl := received member
      obtain rfl : ann = oneAnnounced := by simpa [announcementsOf] using listed
      rfl
    · change ∀ att ∈ [attestsOne oneAnnounced.sigCommitmentRoot ⟨[1], 1⟩],
        ∀ att' ∈ [attestsOne oneAnnounced.sigCommitmentRoot ⟨[1], 1⟩], _
      simp
    · obtain rfl := received member
      rw [first_of_bit set]
      decide
    · obtain rfl := received member
      refine ⟨oneAnnounced, by simp [announcementsOf], ?_⟩
      rw [first_of_bit set]
      decide
  · intro msg
    simp [or_comm]

/-- An attestation with another root is counted when it comes first and not
when it comes second; and a bitmap with two bits covers two transactions of
one. -/
theorem status_depends_on_order :
    Unseen emptyLayer oneBlock ∧
      (∀ root bitmap, ∀ msg ∈ [.announcement oneAnnounced, .batchAttestation (attestsOne root bitmap)],
        ValidFor lastHashes sizedSphincs oneBlock msg) ∧
      ((afterMessages lastHashes sizedSphincs emptyLayer silence
        [.announcement oneAnnounced, .batchAttestation (attestsOne (Vector.replicate 32 9) ⟨[1], 1⟩)]).queryAvailability
          oneBlock 3).attestingValidatorCount = 0 ∧
      ((afterMessages lastHashes sizedSphincs emptyLayer silence
        [.batchAttestation (attestsOne (Vector.replicate 32 9) ⟨[1], 1⟩), .announcement oneAnnounced]).queryAvailability
          oneBlock 3).attestingValidatorCount = 1 ∧
      (fun status : BlockSigAvailabilityStatus => (status.totalTxs, status.coveredTxs, status.txCoverageBps))
        ((afterMessages lastHashes sizedSphincs emptyLayer silence
          [.announcement oneAnnounced, .batchAttestation (attestsOne oneAnnounced.sigCommitmentRoot ⟨[3], 1⟩)]).queryAvailability
            oneBlock 3) = (1, 2, 20000) := by
  refine ⟨emptyLayer_unseen, fun root bitmap => ?_, by decide +kernel, by decide +kernel, by decide +kernel⟩
  simp only [forall_mem_cons]
  exact ⟨oneAnnounced_valid, attestsOne_valid _ _, fun _ absent => by cases absent⟩

end Bleep.Availability
