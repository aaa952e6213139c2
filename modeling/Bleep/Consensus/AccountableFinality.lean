import Mathlib.Algebra.BigOperators.Group.Finset.Piecewise
import Bleep.Consensus.Finality

namespace Bleep

open Words HashTable Results FinalizityManager FinalizyCertificate FinalityCommittee SignatureScheme CommitteeBuild FinalizityManager ValidatorSignature Hex
open List BitVec Nat AList

variable {hexText : FromHexError → String} {sha3 : Bytes → Hash32} {sphincs : Sphincs}
  {registry registry' : ValidatorRegistry} {committee committee' : FinalityCommittee}
  {certificate first second : FinalizyCertificate}

section Power

/-- The voting power behind an id, which is nothing for one that is no member. -/
def powerIn (members : HashMap String CommitteeMember) (id : String) : Nat :=
  (members.lookup id).elim 0 fun member => member.votingPower.toNat

theorem powerIn_of_lookup {members id member}
    (found : members.lookup id = some member) : powerIn members id = member.votingPower.toNat := by
  rw [powerIn, found]
  rfl

/-- What a set of validators weighs in the committee. -/
def FinalityCommittee.power (committee : FinalityCommittee) (ids : Finset String) : Nat :=
  ∑ id ∈ ids, powerIn committee.members id

/-- No set of ids weighs more than the total. -/
def CommitteeBuild.Bounded (build : CommitteeBuild) : Prop :=
  ∀ ids : Finset String, ∑ id ∈ ids, powerIn build.members id ≤ build.totalPower.toNat

variable {build next : CommitteeBuild} {validator : ValidatorIdentity} {id : String} {member : CommitteeMember}

theorem powerIn_add : powerIn (build.add id member).members =
    Function.update (powerIn build.members) id member.votingPower.toNat := by
  funext other
  rw [Function.update_apply, powerIn, CommitteeBuild.add, lookup_insert_eq]
  split
  · rfl
  · rfl

/-- A member that replaces another one counts twice in the total and once
among the members, so this is an inequality. -/
theorem CommitteeBuild.Bounded.add (bounded : build.Bounded)
    (fits : build.totalPower.toNat + member.votingPower.toNat < 2 ^ 128) : (build.add id member).Bounded := by
  intro ids
  have total : (build.add id member).totalPower.toNat = build.totalPower.toNat + member.votingPower.toNat := by
    rw [CommitteeBuild.add, toNat_add, mod_eq_of_lt fits]
  rw [powerIn_add, total]
  by_cases listed : id ∈ ids
  · have others := bounded (ids \ {id})
    rw [Finset.sum_update_of_mem listed]
    omega
  · have others := bounded ids
    rw [Finset.sum_update_of_notMem listed]
    omega

theorem FinalityCommittee.power_le (valid : committeeFromRegistry hexText sha3 registry = .ok committee)
    (ids : Finset String) : committee.power ids ≤ committee.totalPower.toNat := by
  obtain ⟨build, built, returned⟩ := ok_of_bind valid
  cases returned
  have empty : empty.Bounded := fun ids => by simp [empty, powerIn]
  refine foldlM_invariant Bounded built (fun _ _ _ _ done bounded => ?_) empty ids
  rcases enter_cases done with rfl | ⟨member, admitted, rfl⟩
  · exact bounded
  · exact bounded.add admitted.fits

end Power

section Signers

def FinalizyCertificate.signerIds (certificate : FinalizyCertificate) : List String :=
  certificate.validatorSignatures.map validatorId

def FinalizyCertificate.signers (certificate : FinalizyCertificate) : Finset String := certificate.signerIds.toFinset

/-- The certificate has a signature of this member that verifies under the
registered key. -/
def FinalizyCertificate.SignedBy (sha3 : Bytes → Hash32) (sphincs : Sphincs) (committee : FinalityCommittee)
    (certificate : FinalizyCertificate) (id : String) : Prop :=
  ∃ member, committee.members.lookup id = some member ∧
    ∃ signer ∈ certificate.validatorSignatures, signer.validatorId = id ∧
      sphincs.verifyDetachedSignature (signer.signature.drop 32) (certificate.signatureMessage sha3)
        member.publicKey = true

/-- The certificate passes both checks of the manager. -/
structure FinalizyCertificate.Accepted (hexText : FromHexError → String) (sha3 : Bytes → Hash32)
    (sphincs : Sphincs) (registry : ValidatorRegistry) (certificate : FinalizyCertificate) : Prop where
  verified : certificate.verifySignatures hexText sha3 sphincs registry = .ok ()
  quorum : certificate.meetsQuorum hexText sha3 registry = .ok true

/-- The loop accepts distinct members only, and adds up what they weigh. -/
theorem FinalizyCertificate.countSigner_run {signers : List ValidatorSignature} {counted last : List String × U128}
    (done : signers.foldlM (countSigner committee) counted = .ok last) :
    (signers.map validatorId).Nodup ∧
    (∀ signer ∈ signers, signer.validatorId ∉ counted.1) ∧
    last.2.toNat = counted.2.toNat +
      ((signers.map validatorId).map (powerIn committee.members)).sum := by
  induction signers generalizing counted with
  | nil =>
    cases done
    exact ⟨.nil, by simp, by simp⟩
  | cons signer signers ih =>
    obtain ⟨middle, turn, rest⟩ := ok_of_bind done
    unfold countSigner at turn
    split at turn
    · cases turn
    rename_i fresh
    obtain ⟨member, found, turn⟩ := ok_of_bind turn
    obtain ⟨total, added, turn⟩ := ok_of_bind turn
    cases turn
    have sum := checkedAdd_eq_some.mp (ok_of_okOr added)
    have weight := powerIn_of_lookup (ok_of_okOr found)
    obtain ⟨distinct, unseen, rest⟩ := ih rest
    refine ⟨nodup_cons.mpr ⟨fun again => ?_, distinct⟩, ?_, ?_⟩
    · obtain ⟨other, listed, same⟩ := mem_map.mp again
      exact unseen other listed (same ▸ mem_cons_self)
    · rw [forall_mem_cons]
      exact ⟨fresh, fun other listed seen => unseen other listed (mem_cons_of_mem _ seen)⟩
    · rw [rest, map_cons, map_cons, sum_cons, weight]
      dsimp only
      omega

theorem FinalizyCertificate.signerVotingPower_ok {power : U128}
    (counted : certificate.signerVotingPower committee = .ok power) :
    power.toNat = committee.power certificate.signers := by
  obtain ⟨last, done, returned⟩ := ok_of_bind counted
  cases returned
  obtain ⟨distinct, -, sum⟩ := countSigner_run done
  rw [sum, power, signers, signerIds, sum_toFinset _ distinct]
  exact zero_add _

theorem FinalizyCertificate.verifySigner_ok {message before after signer}
    (turn : verifySigner sha3 sphincs committee message before signer = .ok after) :
    ∃ member, committee.members.lookup signer.validatorId = some member ∧
      sphincs.verifyDetachedSignature (signer.signature.drop 32) message member.publicKey = true := by
  unfold verifySigner at turn
  split at turn
  · cases turn
  obtain ⟨member, found, turn⟩ := ok_of_bind turn
  obtain ⟨publicKey, parsed, turn⟩ := ok_of_bind turn
  obtain ⟨signature, read, turn⟩ := ok_of_bind turn
  obtain ⟨_, checked, _⟩ := ok_of_bind turn
  have key := PublicKey.bytes_of_fromBytes (ok_of_mapError parsed)
  have bytes := DigitalSignature.sigBytes_of_fromBytes (ok_of_mapError read)
  have holds := verifies (ok_of_mapError checked)
  rw [key, bytes] at holds
  exact ⟨member, ok_of_okOr found, holds⟩

theorem FinalizyCertificate.signedBy_of_verified
    (verified : certificate.verifySignatures hexText sha3 sphincs registry = .ok ())
    (valid : committeeFromRegistry hexText sha3 registry = .ok committee) :
    ∀ id ∈ certificate.signers, certificate.SignedBy sha3 sphincs committee id := by
  obtain ⟨-, -, verified⟩ := ok_of_bind verified
  split at verified
  · cases verified
  split at verified
  · cases verified
  obtain ⟨read, sameRead, verified⟩ := ok_of_bind verified
  cases valid.symm.trans sameRead
  obtain ⟨-, -, verified⟩ := ok_of_bind verified
  obtain ⟨last, looped, -⟩ := ok_of_bind verified
  intro id member
  obtain ⟨signer, listed, rfl⟩ := mem_map.mp (mem_toFinset.mp member)
  obtain ⟨member, found, valid⟩ := foldlM_accepts looped (fun _ _ _ => verifySigner_ok) signer listed
  exact ⟨member, found, signer, listed, rfl, valid⟩

/-- What acceptance comes to: the certificate is for the registered committee,
of which more than two thirds have signed. -/
theorem FinalizyCertificate.Accepted.certified (accepted : certificate.Accepted hexText sha3 sphincs registry) :
    ∃ committee, committeeFromRegistry hexText sha3 registry = .ok committee ∧
      certificate.committeeHash = committee.hash ∧
      Quorum.threshold committee.totalPower.toNat ≤ committee.power certificate.signers ∧
      ∀ id ∈ certificate.signers, certificate.SignedBy sha3 sphincs committee id := by
  obtain ⟨committee, valid, quorum⟩ := ok_of_bind accepted.quorum
  obtain ⟨_, checked, quorum⟩ := ok_of_bind quorum
  obtain ⟨signedPower, counted, quorum⟩ := ok_of_bind quorum
  have enough : twoThirdsThreshold committee.totalPower < signedPower := of_decide_eq_true (Except.ok.inj quorum)
  rw [lt_def, twoThirdsThreshold, toNat_twoThirds, signerVotingPower_ok counted] at enough
  have hashed : certificate.committeeHash = committee.hash := by
    unfold verifyCommitteeHash at checked
    split at checked
    · cases checked
    rename_i same
    exact not_not.mp same
  exact ⟨committee, valid, hashed, enough, signedBy_of_verified accepted.verified valid⟩

end Signers

section Binding
variable {build : CommitteeBuild} {entries : List (String × CommitteeMember)} {registries : List ValidatorRegistry}

/-- What the committee hash takes in of one member. -/
def encodeEntry (entry : String × CommitteeMember) : Bytes :=
  Codec.lengthPrefixed 8 (utf8 entry.1) ++ Codec.lengthPrefixed 8 entry.2.publicKey
    ++ leBytes 16 entry.2.votingPower.toNat

def CommitteeBuild.addAll (build : CommitteeBuild) (entries : List (String × CommitteeMember)) : CommitteeBuild :=
  entries.foldl (fun build entry => build.add entry.1 entry.2) build

theorem CommitteeBuild.hashed_addAll : (build.addAll entries).hashed = build.hashed ++ entries.flatMap encodeEntry := by
  induction entries generalizing build with
  | nil => exact (append_nil _).symm
  | cons entry entries ih =>
    have first : (build.add entry.1 entry.2).hashed = build.hashed ++ encodeEntry entry := by
      simp [CommitteeBuild.add, appendBytesToHasher, encodeEntry]
    rw [List.flatMap_cons, ← List.append_assoc, ← first]
    exact ih

/-- An id of a length that `u64` can hold, and a key of the right size. -/
def EntryFits : Set (String × CommitteeMember) :=
  { entry | (utf8 entry.1).length < 2 ^ 64 ∧ entry.2.publicKey.length = sphincsPkLen }

theorem encodeEntry_delimited : Codec.Delimited EntryFits encodeEntry := by
  rintro ⟨id, key, power⟩ ⟨short, size⟩ ⟨id', key', power'⟩ ⟨short', size'⟩ rest rest' same
  dsimp only at short short' size size'
  simp only [encodeEntry, List.append_assoc] at same
  obtain ⟨ids, same⟩ := Codec.lengthPrefixed_delimited 8 short short' same
  obtain ⟨keys, same⟩ := Codec.lengthPrefixed_delimited 8 (by change key.length < _; rw [size]; decide)
    (by change key'.length < _; rw [size']; decide) same
  obtain ⟨powers, same⟩ := List.append_inj same (by simp)
  have values := congrArg fromLeBytes powers
  rw [fromLeBytes_leBytes, fromLeBytes_leBytes, mod_eq_of_lt (by omega), mod_eq_of_lt (by omega)] at values
  rw [utf8_injective ids, keys, eq_of_toNat_eq values]
  exact ⟨rfl, same⟩

/-- Every id has a length that `u64` can hold. -/
def ValidatorRegistry.IdsFit (registry : ValidatorRegistry) : Prop :=
  ∀ validator ∈ registry.getActiveValidators, (utf8 validator.id).length < 2 ^ 64

theorem CommitteeBuild.exists_entries (fit : registry.IdsFit)
    (built : registry.getActiveValidators.foldlM (enter hexText) .empty = .ok build) :
    ∃ entries, (∀ entry ∈ entries, entry ∈ EntryFits) ∧ build = empty.addAll entries := by
  refine foldlM_invariant (fun build : CommitteeBuild => ∃ entries, (∀ entry ∈ entries, entry ∈ EntryFits) ∧
    build = empty.addAll entries) built ?_ ⟨[], by simp, rfl⟩
  rintro before validator after listed entered ⟨entries, fits, rfl⟩
  rcases enter_cases entered with rfl | ⟨member, admitted, rfl⟩
  · exact ⟨entries, fits, rfl⟩
  refine ⟨entries ++ [(validator.id, member)], ?_, ?_⟩
  · simp only [forall_mem_append, forall_mem_singleton]
    exact ⟨fits, fit validator listed, admitted.size⟩
  · rw [addAll, addAll, foldl_append]
    rfl

/-- What is hashed for the committees of these registries. -/
def committeeInputs (hexText : FromHexError → String) (registries : List ValidatorRegistry) : Set Bytes :=
  { input | ∃ registry ∈ registries, ∃ build,
    registry.getActiveValidators.foldlM (enter hexText) .empty = .ok build ∧ build.hashed = input }

/-- The hash determines the whole committee: its members and its total. -/
theorem FinalityCommittee.eq_of_hash (injective : Set.InjOn sha3 (committeeInputs hexText registries))
    (listed : registry ∈ registries) (listed' : registry' ∈ registries) (fit : registry.IdsFit)
    (fit' : registry'.IdsFit) (valid : committeeFromRegistry hexText sha3 registry = .ok committee)
    (valid' : committeeFromRegistry hexText sha3 registry' = .ok committee') (same : committee.hash = committee'.hash) :
    committee = committee' := by
  obtain ⟨build, built, returned⟩ := ok_of_bind valid
  obtain ⟨build', built', returned'⟩ := ok_of_bind valid'
  cases returned
  cases returned'
  have inputs : build.hashed = build'.hashed :=
    injective ⟨registry, listed, build, built, rfl⟩ ⟨registry', listed', build', built', rfl⟩ same
  obtain ⟨entries, fits, rfl⟩ := CommitteeBuild.exists_entries fit built
  obtain ⟨entries', fits', rfl⟩ := CommitteeBuild.exists_entries fit' built'
  rw [CommitteeBuild.hashed_addAll, CommitteeBuild.hashed_addAll, List.append_right_inj] at inputs
  have visible (entry : String × CommitteeMember) : encodeEntry entry ≠ [] := by
    intro empty
    have length := congrArg length empty
    simp only [encodeEntry, length_append, leBytes_length, length_nil] at length
    omega
  rw [encodeEntry_delimited.flatMap_inj visible fits fits' inputs]

end Binding

inductive ManagerCall
  | finalizeBlock (certificate : FinalizyCertificate) (registry : ValidatorRegistry)
  | recordProof (proof : FinalityProof) (registry : ValidatorRegistry)

def ManagerCall.snapshot : ManagerCall → ValidatorRegistry
  | finalizeBlock _ registry => registry
  | recordProof _ registry => registry

section Manager
variable (hexText sha3 sphincs)

variable (manager : FinalizityManager)

def ManagerCall.perform : ManagerCall → Except String FinalizityManager
  | finalizeBlock certificate registry => manager.finalizeBlock hexText sha3 sphincs certificate registry
  | recordProof proof registry => manager.recordProof hexText sha3 sphincs proof registry

/-- A call that fails leaves the manager as it was. -/
def ManagerCall.apply (call : ManagerCall) : FinalizityManager :=
  match call.perform hexText sha3 sphincs manager with
  | .ok next => next
  | .error _ => manager

def FinalizityManager.run (calls : List ManagerCall) : FinalizityManager :=
  calls.foldl (ManagerCall.apply hexText sha3 sphincs) .new

/-- The manager has this certificate for the height, by itself or in a proof. -/
def FinalizityManager.Holds (height : U64) (certificate : FinalizyCertificate) : Prop :=
  manager.finalizedBlocks.lookup height = some certificate ∨
    ∃ proof, manager.finalityProofs.lookup height = some proof ∧ proof.certificate = certificate

/-- All certificates were accepted, and a proof is for the message of the
certificate beside it. -/
structure FinalizityManager.Sound (registries : List ValidatorRegistry) (manager : FinalizityManager) : Prop where
  finalized : ∀ height certificate, manager.finalizedBlocks.lookup height = some certificate →
    ∃ registry ∈ registries, certificate.Accepted hexText sha3 sphincs registry
  proven : ∀ height proof, manager.finalityProofs.lookup height = some proof →
    (∃ registry ∈ registries, proof.certificate.Accepted hexText sha3 sphincs registry) ∧
    ∃ certificate, manager.finalizedBlocks.lookup height = some certificate ∧
      certificate.signatureMessage sha3 = proof.certificate.signatureMessage sha3

variable {hexText sha3 sphincs} {manager next : FinalizityManager} {proof : FinalityProof} {height : U64}
  {registries : List ValidatorRegistry}

theorem FinalizityManager.finalizeBlock_ok
    (done : manager.finalizeBlock hexText sha3 sphincs certificate registry = .ok next) :
    manager.finalizedBlocks.lookup certificate.header.height = none ∧
    certificate.Accepted hexText sha3 sphincs registry ∧
    next = { manager with
      finalizedBlocks := manager.finalizedBlocks.insert certificate.header.height certificate
      highestFinalizedHeight := maximum manager.highestFinalizedHeight certificate.header.height } := by
  unfold finalizeBlock at done
  dsimp only at done
  split at done
  · cases done
  rename_i free
  obtain ⟨_, verified, done⟩ := ok_of_bind done
  obtain ⟨quorum, met, done⟩ := ok_of_bind done
  split at done
  · rename_i enough
    cases done
    exact ⟨Option.not_isSome_iff_eq_none.mp free, ⟨verified, enough ▸ met⟩, rfl⟩
  · cases done

theorem FinalityProof.verify_ok (done : proof.verify hexText sha3 sphincs registry = .ok ()) :
    proof.certificate.Accepted hexText sha3 sphincs registry := by
  obtain ⟨_, verified, done⟩ := ok_of_bind done
  obtain ⟨quorum, met, done⟩ := ok_of_bind done
  split at done
  · rename_i enough
    exact ⟨verified, enough ▸ met⟩
  · obtain ⟨_, _, done⟩ := ok_of_bind done
    cases done

namespace FinalizityManager

section
variable (sound : manager.Sound hexText sha3 sphincs registries)
include sound

theorem Sound.finalizeBlock (listed : registry ∈ registries)
    (done : manager.finalizeBlock hexText sha3 sphincs certificate registry = .ok next) :
    next.Sound hexText sha3 sphincs registries := by
  obtain ⟨free, accepted, rfl⟩ := finalizeBlock_ok done
  constructor
  · intro height held found
    rcases lookup_insert_cases found with ⟨rfl, rfl⟩ | ⟨-, found⟩
    · exact ⟨registry, listed, accepted⟩
    · exact sound.finalized height held found
  · intro height proof found
    obtain ⟨own, beside, kept, same⟩ := sound.proven height proof found
    have elsewhere : height ≠ certificate.header.height := by
      rintro rfl
      rw [free] at kept
      cases kept
    exact ⟨own, beside, (lookup_insert_ne elsewhere).trans kept, same⟩

theorem Sound.recordProof (listed : registry ∈ registries)
    (done : manager.recordProof hexText sha3 sphincs proof registry = .ok next) :
    next.Sound hexText sha3 sphincs registries := by
  obtain ⟨finalized, beside, done⟩ := ok_of_bind done
  split at done
  · cases done
  rename_i same
  obtain ⟨_, verified, done⟩ := ok_of_bind done
  cases done
  refine ⟨sound.finalized, ?_⟩
  intro height held found
  rcases lookup_insert_cases found with ⟨rfl, rfl⟩ | ⟨-, found⟩
  · exact ⟨⟨registry, listed, FinalityProof.verify_ok verified⟩, finalized, ok_of_okOr beside, not_not.mp same⟩
  · exact sound.proven height held found

theorem Sound.apply {call : ManagerCall} (listed : call.snapshot ∈ registries) :
    (call.apply hexText sha3 sphincs manager).Sound hexText sha3 sphincs registries := by
  unfold ManagerCall.apply
  split
  · rename_i next done
    cases call with
    | finalizeBlock certificate registry => exact sound.finalizeBlock listed done
    | recordProof proof registry => exact sound.recordProof listed done
  · exact sound

end

theorem run_sound (calls : List ManagerCall) :
    (run hexText sha3 sphincs calls).Sound hexText sha3 sphincs (calls.map ManagerCall.snapshot) := by
  have new : new.Sound hexText sha3 sphincs (calls.map ManagerCall.snapshot) :=
    ⟨fun _ _ found => (by cases found), fun _ _ found => (by cases found)⟩
  exact foldlRecOn calls _ new fun _ sound call listed => sound.apply (mem_map_of_mem listed)

/-- All certificates held for a height carry one message. -/
theorem Sound.holds (sound : manager.Sound hexText sha3 sphincs registries) (held : manager.Holds height certificate) :
    (∃ registry ∈ registries, certificate.Accepted hexText sha3 sphincs registry) ∧
    ∃ finalized, manager.finalizedBlocks.lookup height = some finalized ∧
      finalized.signatureMessage sha3 = certificate.signatureMessage sha3 := by
  rcases held with found | ⟨proof, found, rfl⟩
  · exact ⟨sound.finalized height certificate found, certificate, found, rfl⟩
  · exact sound.proven height proof found

end FinalizityManager

end Manager

section Lone

/-- The certificate of an empty block, before anyone has signed it. -/
def loneUnsigned (sha3 : Bytes → Hash32) : FinalizyCertificate where
  header := FinalityHeader.fromBlock sha3 (Block.new sha3 8 1 [] "parent")
  finalizedEpoch := 0
  finalizedTimestamp := 9
  committeeHash := (loneCommittee sha3).hash
  validatorSignatures := []

def loneSignature (sha3 : Bytes → Hash32) : DigitalSignature where
  sigBytes := List.replicate sphincsSigLen 0
  messageHash := sha3 ((loneUnsigned sha3).signatureMessage sha3)

def loneCertificate (sha3 : Bytes → Hash32) : FinalizyCertificate :=
  { loneUnsigned sha3 with validatorSignatures := [⟨"alice", (loneSignature sha3).asBytes⟩] }

def loneManagerCalls (sha3 : Bytes → Hash32) : List ManagerCall :=
  [.finalizeBlock (loneCertificate sha3) (loneRegistry (encode loneKey)),
    .recordProof ⟨loneCertificate sha3, [], []⟩ (loneRegistry (encode loneKey))]

theorem verifySigner_lone : verifySigner sha3 sizedSphincs (loneCommittee sha3)
    ((loneCertificate sha3).signatureMessage sha3) [] ⟨"alice", (loneSignature sha3).asBytes⟩ = .ok ["alice"] := by
  have member : (loneCommittee sha3).members.lookup "alice" = some loneMember := rfl
  have key := @PublicKey.fromBytes_of_length loneMember.publicKey length_replicate
  have read := @DigitalSignature.fromBytes_asBytes (loneSignature sha3) length_replicate
  have verified : verify sha3 sizedSphincs ((loneCertificate sha3).signatureMessage sha3)
      (loneSignature sha3) ⟨loneMember.publicKey, length_replicate⟩ = .ok () :=
    verify_of_parses rfl (sizedSphincs_publicKey length_replicate)
      (sizedSphincs_detachedSignature length_replicate.le) rfl
  simp only [verifySigner, member, key, read, verified, okOr, Except.mapError, bind, Except.bind,
    List.not_mem_nil, if_false]
  rfl

theorem signerVotingPower_lone : (loneCertificate sha3).signerVotingPower (loneCommittee sha3) = .ok 4 := rfl

theorem loneCertificate_accepted :
    (loneCertificate sha3).Accepted hexText sha3 sizedSphincs (loneRegistry (encode loneKey)) := by
  have hash : (loneCertificate sha3).verifyCommitteeHash (loneCommittee sha3) = .ok () := if_neg (not_not.mpr rfl)
  have header : (loneCertificate sha3).header.verifyHash sha3 = .ok () := if_neg (not_not.mpr rfl)
  have epoch : (loneCertificate sha3).header.epochId = (loneCertificate sha3).finalizedEpoch := rfl
  have signers : (loneCertificate sha3).validatorSignatures = [⟨"alice", (loneSignature sha3).asBytes⟩] := rfl
  constructor
  · simp only [verifySignatures, header, epoch, signers, committeeFromRegistry_lone, hash,
      List.foldlM_cons, verifySigner_lone, bind, Except.bind]
    rfl
  · have more : twoThirdsThreshold 4 < (4 : U128) := by decide
    simp only [meetsQuorum, committeeFromRegistry_lone, hash, signerVotingPower_lone, bind, Except.bind]
    exact congrArg Except.ok (decide_eq_true more)

theorem loneManager_run : run hexText sha3 sizedSphincs (loneManagerCalls sha3) =
    ⟨(∅ : HashMap U64 FinalizyCertificate).insert 1 (loneCertificate sha3),
      (∅ : HashMap U64 FinalityProof).insert 1 ⟨loneCertificate sha3, [], []⟩, 1⟩ := by
  have accepted := @loneCertificate_accepted hexText sha3
  have finalized : new.finalizeBlock hexText sha3 sizedSphincs (loneCertificate sha3)
      (loneRegistry (encode loneKey)) =
        .ok ⟨(∅ : HashMap U64 FinalizyCertificate).insert 1 (loneCertificate sha3), ∅, 1⟩ := by
    simp only [finalizeBlock, accepted.verified, accepted.quorum, bind, Except.bind]
    rfl
  have found : ((∅ : HashMap U64 FinalizyCertificate).insert 1 (loneCertificate sha3)).lookup
      (loneCertificate sha3).header.height = some (loneCertificate sha3) := lookup_insert _
  simp only [run, loneManagerCalls, foldl_cons, foldl_nil, ManagerCall.apply,
    ManagerCall.perform, finalized, recordProof, FinalityProof.verify, found, okOr, accepted.verified,
    accepted.quorum, bind, Except.bind, ne_eq, not_true_eq_false, if_false, if_true]
  rfl

end Lone

end Bleep
