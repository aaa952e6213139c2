import Mathlib.Algebra.BigOperators.Group.Finset.Basic
import Mathlib.Algebra.Order.BigOperators.Group.Finset
import Bleep.Consensus.ValidatorRegistry
import Bleep.Library.Runs

namespace Bleep

open Words HashTable Results ValidatorRegistry BitVec AList Finset ValidatorRegistry RegistryCall

/-- What the record of a validator adds to the stake of the active ones. -/
def activeStake : Option ValidatorIdentity → Nat
  | some validator => if validator.state = .active then validator.stake.toNat else 0
  | none => 0

variable {validator : ValidatorIdentity}

theorem activeStake_of_active (isActive : validator.state = .active) :
    activeStake (some validator) = validator.stake.toNat := by
  rw [activeStake, if_pos isActive]

theorem activeStake_of_idle (idle : validator.state ≠ .active) :
    activeStake (some validator) = 0 := by
  rw [activeStake, if_neg idle]

namespace ValidatorRegistry

def stakeOf (registry : ValidatorRegistry) (id : String) : Nat :=
  match registry.validators.lookup id with
  | some validator => validator.stake.toNat
  | none => 0

/-- The cached set and the cached total say what the records say. -/
structure Coherent (registry : ValidatorRegistry) : Prop where
  active : ∀ id, id ∈ registry.activeValidators ↔
    ∃ validator, registry.validators.lookup id = some validator ∧ validator.state = .active
  total : registry.totalActiveStake.toNat = ∑ id ∈ registry.activeValidators, registry.stakeOf id

/-- The calls that keep the caches right: none but the registration of a
validator that claims to be active upsets the set, and the total stays right
where the call takes off it what the active set loses. -/
def Fits (registry : ValidatorRegistry) : RegistryCall → Prop
  | .registerValidator validator => registry.validators.lookup validator.id = none → validator.state ≠ .active
  | .activateValidator id => ∀ validator, registry.validators.lookup id = some validator →
      validator.state = .inactive → registry.totalActiveStake.toNat + validator.stake.toNat < 2 ^ 128
  | .markValidatorForExit _ => True
  | .finalizeValidatorExit _ _ => True
  | .slashValidatorDoubleSign id slashAmount => ∀ validator, registry.validators.lookup id = some validator →
      slashAmount ≤ validator.stake →
      if validator.state = .active then slashAmount = validator.stake
      else slashAmount = 0 ∨ registry.totalActiveStake = 0
  | .slashValidatorEquivocation id slashAmount => ∀ validator, registry.validators.lookup id = some validator →
      slashAmount ≤ validator.stake →
      if validator.state = .active then slashAmount = validator.stake
      else slashAmount = 0 ∨ registry.totalActiveStake = 0
  | .recordValidatorDowntime id slashAmount => ∀ validator, registry.validators.lookup id = some validator →
      slashAmount ≤ validator.stake → validator.state = .active → slashAmount = 0

variable {registry next : ValidatorRegistry} {validator changed : ValidatorIdentity} {id : String}

section
variable (coherent : registry.Coherent)
include coherent

theorem activeStake_of_not_mem (idle : id ∉ registry.activeValidators) :
    activeStake (registry.validators.lookup id) = 0 := by
  cases found : registry.validators.lookup id with
  | none => rfl
  | some validator =>
    exact activeStake_of_idle fun isActive => idle ((coherent.active id).mpr ⟨validator, found, isActive⟩)

theorem sum_stakeOf (id : String) :
    ∑ other ∈ registry.activeValidators, registry.stakeOf other =
      activeStake (registry.validators.lookup id) +
        ∑ other ∈ registry.activeValidators.erase id, registry.stakeOf other := by
  by_cases member : id ∈ registry.activeValidators
  · obtain ⟨validator, found, isActive⟩ := (coherent.active id).mp member
    rw [← add_sum_erase _ _ member, stakeOf, found, activeStake_of_active isActive]
  · rw [activeStake_of_not_mem coherent member, erase_eq_of_notMem member, Nat.zero_add]

theorem activeStake_le_total (id : String) :
    activeStake (registry.validators.lookup id) ≤ registry.totalActiveStake.toNat := by
  rw [coherent.total, sum_stakeOf coherent id]
  omega

end

/-- When one record changes and the active set follows it, the caches are right
exactly when the total changes by as much as the stake of that validator. -/
theorem coherent_iff_of_change (coherent : registry.Coherent)
    (validators : next.validators = registry.validators.insert id changed)
    (active : ∀ other, other ∈ next.activeValidators ↔
      if other = id then changed.state = .active else other ∈ registry.activeValidators) :
    next.Coherent ↔ next.totalActiveStake.toNat + activeStake (registry.validators.lookup id) =
      registry.totalActiveStake.toNat + activeStake (some changed) := by
  have follows (other : String) : other ∈ next.activeValidators ↔
      ∃ validator, next.validators.lookup other = some validator ∧ validator.state = .active := by
    rw [active, validators, lookup_insert_eq]
    split
    · simp
    · exact coherent.active other
  have rest : next.activeValidators.erase id = registry.activeValidators.erase id := by
    ext other
    rw [Finset.mem_erase, Finset.mem_erase, active]
    exact and_congr_right fun elsewhere => by rw [if_neg elsewhere]
  have same : ∑ other ∈ registry.activeValidators.erase id, next.stakeOf other =
      ∑ other ∈ registry.activeValidators.erase id, registry.stakeOf other := by
    refine sum_congr rfl fun other member => ?_
    rw [stakeOf, stakeOf, validators, lookup_insert_ne (ne_of_mem_erase member)]
  have own : ∑ other ∈ next.activeValidators, next.stakeOf other = activeStake (some changed) +
      ∑ other ∈ registry.activeValidators.erase id, registry.stakeOf other := by
    by_cases isActive : changed.state = .active
    · have member : id ∈ next.activeValidators := (active id).mpr (by rwa [if_pos rfl])
      rw [← add_sum_erase _ _ member, rest, same, stakeOf, validators, lookup_insert, activeStake_of_active isActive]
    · have idle : id ∉ next.activeValidators := fun member => isActive (by simpa using (active id).mp member)
      rw [← erase_eq_of_notMem idle, rest, same, activeStake_of_idle isActive, Nat.zero_add]
  have before := coherent.total
  rw [sum_stakeOf coherent id] at before
  constructor
  · intro after
    have total := after.total
    omega
  · intro balance
    refine ⟨follows, ?_⟩
    omega

section Steps
variable {call : RegistryCall} {slashAmount : U128} {change : ValidatorIdentity → Except String ValidatorIdentity}
  {rest : ValidatorIdentity × ValidatorRegistry → Except String ValidatorRegistry}

theorem apply_of_ok (done : call.perform registry = .ok next) : call.apply registry = next := by
  rw [apply, done]

theorem apply_of_error {e} (failed : call.perform registry = .error e) : call.apply registry = registry := by
  rw [apply, failed]

theorem modify_absent (absent : registry.validators.lookup id = none) :
    (registry.modify id change >>= rest) = .error s!"Validator {id} not found" := by
  rw [modify, absent]
  rfl

theorem coherent_of_error {e} (coherent : registry.Coherent) (failed : call.perform registry = .error e) :
    (call.apply registry).Coherent := by
  rw [apply_of_error failed]
  exact coherent

theorem mem_erase_iff (idle : changed.state ≠ .active) (other : String) :
    other ∈ registry.activeValidators.erase id ↔
      if other = id then changed.state = .active else other ∈ registry.activeValidators := by
  by_cases here : other = id
  · rw [if_pos here, here]
    simp [idle]
  · rw [if_neg here, Finset.mem_erase]
    exact and_iff_right here

/-- A change that neither makes nor ends an active validator and leaves both
caches alone. -/
theorem coherent_record_iff (coherent : registry.Coherent) (found : registry.validators.lookup id = some validator)
    (same : changed.state = .active ↔ validator.state = .active) :
    ({ registry with validators := registry.validators.insert id changed } : ValidatorRegistry).Coherent ↔
      activeStake (some validator) = activeStake (some changed) := by
  have kept (other : String) : other ∈ registry.activeValidators ↔
      if other = id then changed.state = .active else other ∈ registry.activeValidators := by
    by_cases here : other = id
    · rw [if_pos here, here, same, coherent.active, found]
      simp
    · rw [if_neg here]
  rw [@coherent_iff_of_change registry { registry with validators := registry.validators.insert id changed } changed id
    coherent rfl kept, found]
  exact Nat.add_left_cancel_iff

theorem coherent_register_iff (coherent : registry.Coherent) (validator : ValidatorIdentity) :
    ((RegistryCall.registerValidator validator).apply registry).Coherent ↔
      registry.Fits (.registerValidator validator) := by
  cases found : registry.validators.lookup validator.id with
  | some other =>
    have failed : (RegistryCall.registerValidator validator).perform registry =
        .error s!"Validator {validator.id} already registered" := by
      rw [RegistryCall.perform, registerValidator, found]
      rfl
    refine iff_of_true (coherent_of_error coherent failed) fun absent => ?_
    cases found.symm.trans absent
  | none =>
    have done : (RegistryCall.registerValidator validator).perform registry =
        .ok { registry with validators := registry.validators.insert validator.id validator } := by
      rw [RegistryCall.perform, registerValidator, found]
      rfl
    have idle : validator.id ∉ registry.activeValidators := by
      intro member
      obtain ⟨other, known, -⟩ := (coherent.active _).mp member
      cases found.symm.trans known
    rw [apply_of_ok done]
    constructor
    · intro after _ isActive
      exact idle ((after.active _).mpr ⟨validator, lookup_insert _, isActive⟩)
    · intro fits
      have inactive := fits found
      refine (coherent_iff_of_change coherent rfl fun other => ?_).mpr ?_
      · by_cases here : other = validator.id
        · rw [if_pos here, here]
          exact iff_of_false idle inactive
        · rw [if_neg here]
      · rw [found, activeStake_of_idle inactive]
        rfl

/-- A call on one record: it is refused unless the record is ready, and then
keeps the caches right exactly when the record is good. -/
theorem coherent_modify_iff (coherent : registry.Coherent) {ready good : ValidatorIdentity → Prop}
    {finish : ValidatorIdentity × ValidatorRegistry → ValidatorRegistry}
    (performs : call.perform registry = (registry.modify id change >>= fun result => .ok (finish result)))
    (refuses : ∀ validator, ¬ready validator → ∃ e, change validator = .error e)
    (accepts : ∀ validator, registry.validators.lookup id = some validator → ready validator →
      ∃ changed, change validator = .ok changed ∧
        ((finish (changed, { registry with validators := registry.validators.insert id changed })).Coherent ↔
          good validator)) :
    (call.apply registry).Coherent ↔
      ∀ validator, registry.validators.lookup id = some validator → ready validator → good validator := by
  cases found : registry.validators.lookup id with
  | none =>
    refine iff_of_true (coherent_of_error coherent (performs.trans (modify_absent found))) fun validator known => ?_
    cases known
  | some validator =>
    rw [modify, found] at performs
    dsimp only at performs
    by_cases isReady : ready validator
    · obtain ⟨changed, result, follows⟩ := accepts validator found isReady
      rw [result] at performs
      rw [apply_of_ok performs]
      refine follows.trans ⟨fun holds other known _ => ?_, fun each => each validator rfl isReady⟩
      cases known
      exact holds
    · obtain ⟨e, result⟩ := refuses validator isReady
      rw [result] at performs
      refine iff_of_true (coherent_of_error coherent performs) fun other known wanted => ?_
      cases known
      exact absurd wanted isReady

section
variable (coherent : registry.Coherent)
include coherent

theorem coherent_activate_iff (id : String) :
    ((RegistryCall.activateValidator id).apply registry).Coherent ↔ registry.Fits (.activateValidator id) := by
  refine coherent_modify_iff coherent rfl (fun validator other => ?_) fun validator found inactive => ?_
  · unfold ValidatorIdentity.activate
    split
    · contradiction
    · exact ⟨_, rfl⟩
  · have idle : validator.state ≠ .active := by simp [inactive]
    refine ⟨{ validator with state := .active }, by rw [ValidatorIdentity.activate, inactive], ?_⟩
    rw [coherent_iff_of_change coherent rfl fun other => by by_cases here : other = id <;> simp [here], found,
      activeStake_of_idle idle, activeStake_of_active rfl, toNat_saturatingAdd]
    dsimp only
    omega

theorem coherent_markForExit (id : String) : ((RegistryCall.markValidatorForExit id).apply registry).Coherent := by
  refine (@coherent_modify_iff registry id _ _ coherent (fun validator => validator.state = .active) (fun _ => True) _
    rfl (fun validator other => ?_) fun validator found isActive => ?_).mpr fun _ _ _ => trivial
  · unfold ValidatorIdentity.markForExit
    split
    · contradiction
    · exact ⟨_, rfl⟩
  · refine ⟨{ validator with state := .pendingExit }, by rw [ValidatorIdentity.markForExit, isActive],
      iff_of_true ?_ trivial⟩
    have covered := activeStake_le_total coherent id
    rw [found, activeStake_of_active isActive] at covered
    rw [coherent_iff_of_change coherent rfl (mem_erase_iff (by simp)), found, activeStake_of_active isActive,
      activeStake_of_idle (by simp), toNat_saturatingSub]
    dsimp only
    omega

theorem coherent_finalizeExit (id : String) (epoch : U64) :
    ((RegistryCall.finalizeValidatorExit id epoch).apply registry).Coherent := by
  refine (@coherent_modify_iff registry id _ _ coherent (fun validator => validator.state = .pendingExit)
    (fun _ => True) _ rfl (fun validator other => ?_) fun validator found leaving => ?_).mpr fun _ _ _ => trivial
  · unfold ValidatorIdentity.finalizeExit
    split
    · contradiction
    · exact ⟨_, rfl⟩
  · have idle : validator.state ≠ .active := by simp [leaving]
    refine ⟨{ validator with state := .exited, exitedEpoch := some epoch },
      by rw [ValidatorIdentity.finalizeExit, leaving], iff_of_true ?_ trivial⟩
    rw [coherent_record_iff coherent found (by simp [leaving]), activeStake_of_idle idle, activeStake_of_idle (by simp)]

/-- Both ways of slashing take the amount off the total, while the active set
loses the whole validator. -/
theorem coherent_slashed_iff (found : registry.validators.lookup id = some validator)
    (covered : slashAmount ≤ validator.stake) (slashed : changed.state = .slashed) :
    ({ validators := registry.validators.insert id changed
       activeValidators := registry.activeValidators.erase id
       totalActiveStake := saturatingSub registry.totalActiveStake slashAmount } : ValidatorRegistry).Coherent ↔
      if validator.state = .active then slashAmount = validator.stake
      else slashAmount = 0 ∨ registry.totalActiveStake = 0 := by
  have idle : changed.state ≠ .active := by simp [slashed]
  have bound : slashAmount.toNat ≤ validator.stake.toNat := covered
  have counted := activeStake_le_total coherent id
  rw [found] at counted
  rw [coherent_iff_of_change coherent rfl (mem_erase_iff idle), found, activeStake_of_idle idle, toNat_saturatingSub]
  by_cases isActive : validator.state = .active
  · rw [activeStake_of_active isActive] at counted ⊢
    rw [if_pos isActive, ← toNat_inj]
    omega
  · have zero : (0 : U128).toNat = 0 := rfl
    rw [activeStake_of_idle isActive, if_neg isActive, ← toNat_inj, ← toNat_inj, zero]
    omega

end

theorem penalize_of_lt {factor} (excessive : ¬slashAmount ≤ validator.stake) :
    validator.penalize slashAmount factor =
      .error s!"Slash amount {slashAmount.toNat} exceeds stake {validator.stake.toNat}" :=
  if_pos (BitVec.not_le.mp excessive)

theorem penalize_of_le {factor} (covered : slashAmount ≤ validator.stake) :
    validator.penalize slashAmount factor = .ok { validator with
      stake := saturatingSub validator.stake slashAmount
      totalSlashed := saturatingAdd validator.totalSlashed slashAmount
      reputation := validator.reputation * factor } :=
  if_neg (BitVec.not_lt.mpr covered)

theorem coherent_downtime_iff (coherent : registry.Coherent) (id : String) (slashAmount : U128) :
    ((RegistryCall.recordValidatorDowntime id slashAmount).apply registry).Coherent ↔
      registry.Fits (.recordValidatorDowntime id slashAmount) := by
  refine coherent_modify_iff coherent rfl (fun validator excessive => ?_) fun validator found covered => ?_
  · rw [ValidatorIdentity.recordDowntime, penalize_of_lt excessive]
    exact ⟨_, rfl⟩
  · obtain ⟨changed, result, state, stake⟩ : ∃ changed, validator.recordDowntime slashAmount = .ok changed ∧
        changed.state = validator.state ∧ changed.stake = saturatingSub validator.stake slashAmount := by
      rw [ValidatorIdentity.recordDowntime, penalize_of_le covered]
      exact ⟨_, rfl, rfl, rfl⟩
    refine ⟨changed, result, ?_⟩
    rw [coherent_record_iff coherent found (by rw [state])]
    have bound : slashAmount.toNat ≤ validator.stake.toNat := covered
    have zero : (0 : U128).toNat = 0 := rfl
    by_cases isActive : validator.state = .active
    · rw [activeStake_of_active isActive, activeStake_of_active (state.trans isActive), stake, toNat_saturatingSub,
        ← toNat_inj, zero]
      constructor
      · intro balance _
        omega
      · intro none
        have := none isActive
        omega
    · have idle : changed.state ≠ .active := by rwa [state]
      rw [activeStake_of_idle isActive, activeStake_of_idle idle]
      exact iff_of_true rfl fun active => absurd active isActive

/-- A call keeps the caches right exactly when it fits. -/
theorem coherent_apply_iff (coherent : registry.Coherent) (call : RegistryCall) :
    (call.apply registry).Coherent ↔ registry.Fits call := by
  cases call with
  | registerValidator validator => exact coherent_register_iff coherent validator
  | activateValidator id => exact coherent_activate_iff coherent id
  | markValidatorForExit id => exact iff_of_true (coherent_markForExit coherent id) trivial
  | finalizeValidatorExit id epoch => exact iff_of_true (coherent_finalizeExit coherent id epoch) trivial
  | slashValidatorDoubleSign id slashAmount =>
    refine coherent_modify_iff coherent rfl (fun validator excessive => ?_) fun validator found covered => ?_
    · exact ⟨_, by rw [ValidatorIdentity.slashForDoubleSigning, penalize_of_lt excessive]; rfl⟩
    · exact ⟨_, by rw [ValidatorIdentity.slashForDoubleSigning, penalize_of_le covered]; rfl,
        coherent_slashed_iff coherent found covered rfl⟩
  | slashValidatorEquivocation id slashAmount =>
    refine coherent_modify_iff coherent rfl (fun validator excessive => ?_) fun validator found covered => ?_
    · exact ⟨_, by rw [ValidatorIdentity.slashForEquivocation, penalize_of_lt excessive]; rfl⟩
    · exact ⟨_, by rw [ValidatorIdentity.slashForEquivocation, penalize_of_le covered]; rfl,
        coherent_slashed_iff coherent found covered rfl⟩
  | recordValidatorDowntime id slashAmount => exact coherent_downtime_iff coherent id slashAmount

end Steps

end ValidatorRegistry

def ValidatorIdentity.Retired (validator : ValidatorIdentity) : Prop :=
  validator.state = .exited ∨ validator.state = .slashed

theorem ValidatorIdentity.Evolves.retired {changed} (evolves : validator.Evolves changed)
    (retired : validator.Retired) : changed.Retired := by
  have moves := evolves.moves
  unfold Retired at retired ⊢
  generalize validator.state = before at moves retired
  generalize changed.state = after at moves ⊢
  cases moves <;> simp_all

namespace ValidatorRegistry
variable {registry : ValidatorRegistry} {id : String} {calls : List RegistryCall}

theorem retired_apply (call : RegistryCall)
    (retired : ∃ validator, registry.validators.lookup id = some validator ∧ validator.Retired) :
    ∃ validator, (call.apply registry).validators.lookup id = some validator ∧ validator.Retired := by
  cases result : call.perform registry with
  | error e =>
    rw [apply_of_error result]
    exact retired
  | ok next =>
    obtain ⟨validator, found, left⟩ := retired
    obtain ⟨key, value, validators, entry⟩ := validators_perform result
    rw [apply_of_ok result, validators]
    by_cases here : id = key
    · subst here
      rw [lookup_insert]
      refine ⟨value, rfl, ?_⟩
      rcases entry with ⟨free, -⟩ | ⟨old, known, evolves⟩
      · cases free.symm.trans found
      · cases known.symm.trans found
        exact evolves.retired left
    · rw [lookup_insert_ne here]
      exact ⟨validator, found, left⟩

theorem new_coherent : new.Coherent := by
  refine ⟨fun id => ?_, rfl⟩
  constructor
  · intro member
    exact absurd member (Finset.notMem_empty id)
  · rintro ⟨validator, found, -⟩
    cases found

/-- Over any run of the calls, the caches are right all the time exactly when
every call fits the registry it finds; and in every run a validator that has
exited or was slashed is never active again. -/
theorem registry_coherent_iff :
    ((∀ n, (new.run (calls.take n)).Coherent) ↔
      ∀ n call, calls[n]? = some call → (new.run (calls.take n)).Fits call) ∧
    ∀ m n, m ≤ n → ∀ id validator,
      (new.run (calls.take m)).validators.lookup id = some validator →
      validator.state = .exited ∨ validator.state = .slashed →
      ∀ later, (new.run (calls.take n)).validators.lookup id = some later →
        later.state ≠ .active := by
  refine ⟨Runs.forall_take_iff new_coherent fun registry call coherent => coherent_apply_iff coherent call, ?_⟩
  intro m n le id validator found retired later afterwards
  have left := @Runs.foldl_take_mono _ _ apply new calls
    (fun registry => ∃ validator, registry.validators.lookup id = some validator ∧ validator.Retired)
    (fun registry call => retired_apply call) m n le ⟨validator, found, retired⟩
  obtain ⟨last, known, gone⟩ := left
  cases known.symm.trans afterwards
  rcases gone with exited | slashed
  · simp [exited]
  · simp [slashed]

/-- One validator with a stake of 4 that is active and then loses a quarter of it. -/
def partialSlash : List RegistryCall :=
  [.registerValidator (freshValidator "alice" "" 4), .activateValidator "alice", .slashValidatorEquivocation "alice" 1]

/-- The validator is out of the active set, and the rest of its stake is still
in the total. -/
theorem slashed_stake_still_counted :
    ValidatorIdentity.new "alice" (List.replicate 1568 0) "" 4 0 = .ok (freshValidator "alice" "" 4) ∧
    (ValidatorRegistry.new.run partialSlash).activeValidators = ∅ ∧
    (ValidatorRegistry.new.run partialSlash).totalActiveStake = 3 ∧
    ¬(ValidatorRegistry.new.run partialSlash).Coherent := by
  have empty : (new.run partialSlash).activeValidators = ∅ := rfl
  have left : (new.run partialSlash).totalActiveStake = 3 := rfl
  refine ⟨freshValidator_new rfl (by decide), empty, left, fun coherent => ?_⟩
  have total := coherent.total
  rw [empty, left, sum_empty] at total
  cases total

end ValidatorRegistry

end Bleep
