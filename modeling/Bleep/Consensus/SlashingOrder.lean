import Bleep.Consensus.SlashingEngine
import Bleep.Library.Ledger

namespace Bleep

open Words HashTable Results ValidatorIdentity SlashingEngine Vector Ledger SlashingEvidence

structure Hearing where
  sphincs : Sphincs
  canonicalChainContains : U64 → Hash32 → Bool
  currentEpoch : U64
  timestamp : U64

open Hearing

namespace Hearing

variable (hearing : Hearing) (state : SlashingEngine × ValidatorRegistry) (evidence e1 e2 : SlashingEvidence)

def process : Except String (SlashingEvent × SlashingEngine × ValidatorRegistry) :=
  state.1.processEvidenceWithCanonicalChain hearing.sphincs evidence state.2 hearing.currentEpoch hearing.timestamp
    hearing.canonicalChainContains

/-- Evidence that is refused changes nothing. -/
def settle : SlashingEngine × ValidatorRegistry := ((hearing.process state evidence).toOption.map Prod.snd).getD state

def key : String × U64 := (evidence.validatorId, evidence.keyHeight hearing.currentEpoch)

/-- Each piece would be accepted alone, and they are about one validator. -/
structure Acceptable : Prop where
  same : e1.validatorId = e2.validatorId
  first : ∃ result, hearing.process state e1 = .ok result
  second : ∃ result, hearing.process state e2 = .ok result

def standing (id : String) : Option (U128 × U128 × U32 × Bool) := (state.2.validators.lookup id).map fun validator =>
  (validator.stake, validator.totalSlashed, validator.doubleSignCount, validator.isEjected)

variable {hearing state evidence e1 e2}

theorem slashRegistry_ok {registry slashed slashAmount}
    (done : slashRegistry evidence registry slashAmount = .ok slashed) :
    ∃ validator punished, registry.validators.lookup evidence.validatorId = some validator ∧
      slashed.validators = registry.validators.insert evidence.validatorId punished ∧ punished.id = validator.id ∧
      punished.signingKeyId = validator.signingKeyId ∧ punished.doubleSignCount =
        validator.doubleSignCount + (if evidence.evidenceType = "DOUBLE_SIGNING" then 1 else 0) ∧
      punished.stake.toNat + slashAmount.toNat = validator.stake.toNat ∧
      punished.totalSlashed = saturatingAdd validator.totalSlashed slashAmount := by
  cases evidence
  all_goals
    obtain ⟨validator, punished, found, changes, finished⟩ := ValidatorRegistry.modify_ok done
    simp only [slashForDoubleSigning, slashForEquivocation,
      recordDowntime, penalize] at changes
    cases finished
    refine ⟨validator, punished, found, rfl, ?_⟩
    split at changes <;> cases changes
    rename_i covered
    have within := BitVec.le_def.mp (BitVec.not_lt.mp covered)
    simp [evidenceType, Nat.sub_add_cancel within]

/-- Evidence that is found good against a validator. -/
structure Stands (hearing : Hearing) (validator : ValidatorIdentity) (evidence : SlashingEvidence) : Prop where
  formed : evidence.isWellFormed = .ok ()
  verified : verifyEvidenceSignatures hearing.sphincs evidence validator hearing.canonicalChainContains = .ok ()

/-- What accepted evidence has passed, and what it does. -/
structure Accepts (hearing : Hearing) (state after : SlashingEngine × ValidatorRegistry) (evidence : SlashingEvidence)
    (validator punished : ValidatorIdentity) : Prop where
  fresh : state.1.processedEvidence.lookup (hearing.key evidence) = none
  found : state.2.validators.lookup evidence.validatorId = some validator
  stands : hearing.Stands validator evidence
  penalties : after.1.penalties = state.1.penalties
  processed : after.1.processedEvidence = state.1.processedEvidence.insert (hearing.key evidence) evidence
  written : after.2.validators = state.2.validators.insert evidence.validatorId punished
  left : after.2.validators.lookup evidence.validatorId = some punished
  id : punished.id = validator.id
  signingKeyId : punished.signingKeyId = validator.signingKeyId
  count : punished.doubleSignCount =
    validator.doubleSignCount + if evidence.evidenceType = "DOUBLE_SIGNING" then 1 else 0
  history : ∃ event, after.1.slashingHistory = state.1.slashingHistory ++ [event] ∧
    punished.stake.toNat + event.slashAmount.toNat = validator.stake.toNat ∧
    punished.totalSlashed = saturatingAdd validator.totalSlashed event.slashAmount

theorem accepts_of_ok (accepted : ∃ result, hearing.process state evidence = .ok result) :
    ∃ validator punished, Accepts hearing state (hearing.settle state evidence) evidence validator punished := by
  obtain ⟨result, done⟩ := accepted
  have settled : hearing.settle state evidence = result.2 := by
    rw [settle, done]
    rfl
  rw [settled]
  obtain ⟨_, formed, done⟩ := ok_of_bind done
  dsimp only at done
  split at done
  · cases done
  rename_i fresh
  obtain ⟨validator, found, done⟩ := ok_of_bind done
  obtain ⟨_, verified, done⟩ := ok_of_bind done
  obtain ⟨slashAmount, -, done⟩ := ok_of_bind done
  obtain ⟨slashed, written, returned⟩ := ok_of_bind done
  cases returned
  obtain ⟨_, punished, owned, inserted, id, signingKeyId, count, booked⟩ := slashRegistry_ok written
  cases (ok_of_okOr found).symm.trans owned
  refine ⟨validator, punished, Option.not_isSome_iff_eq_none.mp fresh, owned, ⟨formed, verified⟩, rfl, rfl, inserted, ?_,
    id, signingKeyId, count, _, rfl, booked⟩
  exact (congrArg (AList.lookup _) inserted).trans (AList.lookup_insert _)

variable {validator punished : ValidatorIdentity}

/-- Evidence under a key that is taken is refused. -/
theorem Accepts.settle_again {after}
    (accepts : hearing.Accepts state after e1 validator punished) (again : hearing.key e2 = hearing.key e1) :
    hearing.settle after e2 = after := by
  cases done : hearing.process after e2 with
  | error text =>
    rw [settle, done]
    rfl
  | ok result =>
    obtain ⟨_, _, other⟩ := accepts_of_ok ⟨result, done⟩
    have fresh := other.fresh
    rw [accepts.processed, again, AList.lookup_insert] at fresh
    cases fresh

theorem Stands.offence (stands : hearing.Stands validator evidence) :
    evidence.evidenceType = "DOUBLE_SIGNING" ∨ evidence.evidenceType = "EQUIVOCATION" := by
  cases evidence with
  | doubleSigning => exact .inl rfl
  | equivocation => exact .inr rfl
  | downtime =>
    obtain ⟨key, -, verified⟩ := ok_of_bind stands.verified
    split at verified
    · cases verified
    obtain ⟨_, -, verified⟩ := ok_of_bind verified
    cases verified

/-- Evidence that stands is refused only as known already, or for its penalty. -/
theorem Stands.settle_registry (stands : hearing.Stands validator evidence)
    (found : state.2.validators.lookup evidence.validatorId = some validator) :
    (hearing.settle state evidence).2 =
      (if (state.1.processedEvidence.lookup (hearing.key evidence)).isSome then none
        else (state.1.calculateSlashAmount evidence validator >>=
          slashRegistry evidence state.2).toOption).getD state.2 := by
  unfold settle process processEvidenceWithCanonicalChain key
  simp only [stands.formed, stands.verified, found, okOr, bind, Except.bind]
  split
  · rfl
  cases state.1.calculateSlashAmount evidence validator with
  | error text => rfl
  | ok slashAmount =>
    dsimp only
    cases slashRegistry evidence state.2 slashAmount <;> rfl

/-- Evidence of one type does the same to a registry, if it is new in both
places or in none. -/
theorem Stands.registry_congr {state'} (stands : hearing.Stands validator e1)
    (stands' : hearing.Stands validator e2) (type : e1.evidenceType = e2.evidenceType)
    (same : e1.validatorId = e2.validatorId) (found : state.2.validators.lookup e1.validatorId = some validator)
    (registry : state'.2 = state.2) (penalties : state'.1.penalties = state.1.penalties)
    (fresh : (state'.1.processedEvidence.lookup (hearing.key e2)).isSome =
      (state.1.processedEvidence.lookup (hearing.key e1)).isSome) :
    (hearing.settle state e1).2 = (hearing.settle state' e2).2 := by
  have offence := stands.offence
  rw [stands.settle_registry found, stands'.settle_registry (registry ▸ same ▸ found), registry, fresh]
  cases e1 <;> cases e2 <;> simp [evidenceType] at type offence <;> cases same <;>
    simp only [calculateSlashAmount, penaltyFor, penalties] <;> rfl

/-- No stake is lost: what was taken off it is in the totals of the validators,
and all that is in the history. -/
structure Balanced (registered : ValidatorRegistry) (state : SlashingEngine × ValidatorRegistry) : Prop where
  stakes : ∀ id, ((state.2.validators.lookup id).map fun validator =>
      validator.stake.toNat + validator.totalSlashed.toNat) =
    (registered.validators.lookup id).map fun validator => validator.stake.toNat
  history : (state.1.slashingHistory.map fun event => event.slashAmount.toNat).sum =
    total (ofMap (fun validator => validator.totalSlashed.toNat) state.2.validators)

theorem Balanced.settle {registered} (balanced : Balanced registered state) (hearing : Hearing)
    (evidence : SlashingEvidence) : Balanced registered (hearing.settle state evidence) := by
  cases done : hearing.process state evidence with
  | error text =>
    rw [Hearing.settle, done]
    exact balanced
  | ok result =>
    obtain ⟨validator, punished, accepts⟩ := accepts_of_ok ⟨result, done⟩
    obtain ⟨event, logged, taken, slashed⟩ := accepts.history
    have whole := balanced.stakes evidence.validatorId
    rw [accepts.found, Option.map_some] at whole
    obtain ⟨first, -, total⟩ := Option.map_eq_some_iff.mp whole.symm
    -- The total of a validator stays within its stake at registration.
    have grown : punished.totalSlashed.toNat = validator.totalSlashed.toNat + event.slashAmount.toNat := by
      rw [slashed, toNat_saturatingAdd]
      omega
    constructor
    · intro id
      rw [accepts.written, ← balanced.stakes]
      refine lookup_insert_congr (Option.map _) ?_ id
      rw [accepts.found, Option.map_some, Option.map_some]
      exact congrArg some (by omega)
    · have total := total_update (ofMap (fun validator => validator.totalSlashed.toNat)
        state.2.validators) evidence.validatorId punished.totalSlashed.toNat
      rw [ofMap_apply, accepts.found, Option.map_some, Option.getD_some] at total
      rw [logged, accepts.written, ofMap_insert, List.map_append, List.sum_append, balanced.history]
      simp only [List.map_cons, List.map_nil, List.sum_cons, List.sum_nil]
      omega

end Hearing

section Orders

/-- Two signed hashes, and two signed votes, of one height. -/
def doubleEvidence (height : U64) : SlashingEvidence :=
  .doubleSigning "alice" height (Hex.encode (replicate 32 0).toList) (Hex.encode (replicate 32 1).toList)
    (echoSign (doubleSignMessage height (replicate 32 0)))
    (echoSign (doubleSignMessage height (replicate 32 1)))

def voteEvidence (height : U64) : SlashingEvidence :=
  .equivocation "alice" height (replicate 32 0).toList (replicate 32 1).toList
    (echoSign (equivocationVoteMessage "alice" height 1 (replicate 32 0).toList))
    (echoSign (equivocationVoteMessage "alice" height 2 (replicate 32 1).toList)) 1 2

def openHearing : Hearing := ⟨echoSphincs, fun _ _ => true, 0, 9⟩

def twinState : SlashingEngine × ValidatorRegistry := (.new, loneRegistry (Hex.encode twinKey))

theorem evidence_stands {validator} (key : Hex.decode validator.signingKeyId = .ok twinKey)
    {height} (positive : ¬height = 0) (evidence : SlashingEvidence)
    (listed : evidence ∈ [doubleEvidence height, voteEvidence height]) : openHearing.Stands validator evidence := by
  have sized (message : Bytes) : hasValidSignatureLength (echoSign message) = true :=
    decide_eq_true (.inl (echoSign_length message))
  have signed (message : Bytes) : verifyValidatorSignature echoSphincs (echoSign message) message twinKey = .ok () := by
    rw [verifyValidatorSignature, signatureBytes, if_pos (echoSign_length message)]
    simp only [bind, Except.bind, echoSign_parses, echoSphincs_verifies, Except.mapError, if_true]
    rfl
  have text (hash : Hash32) : (utf8 (Hex.encode hash.toList)).length = 64 := by
    rw [utf8_encode_length, length_toList]
  have apart : ¬(replicate 32 (0 : UInt8)).toList = (replicate 32 1).toList := by decide
  have named : "alice".isEmpty = false := rfl
  have later : ¬(1 : U64) = 2 := by decide
  have size := twinKey_length
  have accepted := twinKey_accepted
  unfold doubleEvidence voteEvidence at listed
  unfold openHearing
  -- The signatures are too long to be looked into.
  generalize echoSign = sign, echoSphincs = sphincs, twinKey = pk at *
  rcases List.mem_pair.mp listed with rfl | rfl <;> constructor <;>
    simp only [isWellFormed, verifyEvidenceSignatures, verifyBlockHash, key, sized, signed, text,
      apart, named, positive, later, size, accepted, Hex.decode_encode, decodeBlockHash_encode, length_toList,
      bind, Except.bind, pure, Except.pure, Except.mapError, ne_eq, not_true_eq_false, or_self, and_self, if_false,
      Bool.false_eq_true, Bool.true_eq_false]

end Orders

end Bleep
