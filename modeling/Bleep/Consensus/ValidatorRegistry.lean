import Mathlib.Data.Finset.Sort
import Mathlib.Data.String.Basic
import Bleep.Bytes
import Bleep.Library.HashTable
import Bleep.Library.Results

namespace Bleep

open Words HashTable Results List

inductive ValidatorState
  | inactive
  | active
  | pendingExit
  | exited
  | slashed
  | ejected
  deriving DecidableEq

/-- The derived `Debug` text, as the error messages print it. -/
def ValidatorState.debug : ValidatorState → String
  | inactive => "Inactive"
  | active => "Active"
  | pendingExit => "PendingExit"
  | exited => "Exited"
  | slashed => "Slashed"
  | ejected => "Ejected"

structure ValidatorIdentity where
  id : String
  kyberPublicKey : Bytes
  signingKeyId : String
  vrfPublicKey : Bytes
  stake : U128
  state : ValidatorState
  reputation : Float
  doubleSignCount : U32
  equivocationCount : U32
  downtimeCount : U32
  joinedEpoch : U64
  exitedEpoch : Option U64
  totalSlashed : U128
  deriving DecidableEq

/-- The external Ristretto VRF. The `from_bytes` functions report their failure
as the text the source prints; `expandPublicKey` gives the public key of the
pair that a seed expands to, `vrfVerify` the 32 bytes that `make_bytes` derives
from a proof it accepts. -/
structure Schnorrkel where
  publicKey : Bytes → Except String Unit
  preOut : Bytes → Except String Unit
  proof : Bytes → Except String Unit
  expandPublicKey : Hash32 → Except String Bytes
  vrfVerify : (publicKey context input output proof : Bytes) → Except String Hash32

namespace ValidatorIdentity

def new (id : String) (kyberPublicKey : Bytes) (signingKeyId : String) (stake : U128) (joinedEpoch : U64) :
    Except String ValidatorIdentity :=
  if id.isEmpty then .error "Validator ID cannot be empty"
  else if stake = 0 then .error "Validator stake must be > 0"
  else if kyberPublicKey.length ≠ 1568 then .error "Kyber-1024 public key must be 1568 bytes"
  else .ok {
    id := id
    kyberPublicKey := kyberPublicKey
    signingKeyId := signingKeyId
    vrfPublicKey := []
    stake := stake
    state := .inactive
    reputation := 1.0
    doubleSignCount := 0
    equivocationCount := 0
    downtimeCount := 0
    joinedEpoch := joinedEpoch
    exitedEpoch := none
    totalSlashed := 0 }

def newWithVrfPublicKey (schnorrkel : Schnorrkel) (id : String) (kyberPublicKey : Bytes) (signingKeyId : String)
    (vrfPublicKey : Bytes) (stake : U128) (joinedEpoch : U64) : Except String ValidatorIdentity := do
  let identity ← new id kyberPublicKey signingKeyId stake joinedEpoch
  match schnorrkel.publicKey vrfPublicKey with
  | .error error => .error s!"Invalid proposer VRF public key: {error}"
  | .ok _ => .ok { identity with vrfPublicKey := vrfPublicKey }

variable (validator : ValidatorIdentity)

def activate : Except String ValidatorIdentity :=
  match validator.state with
  | .inactive => .ok { validator with state := .active }
  | state => .error s!"Cannot activate validator in state {state.debug}"

def markForExit : Except String ValidatorIdentity :=
  match validator.state with
  | .active => .ok { validator with state := .pendingExit }
  | state => .error s!"Cannot mark validator for exit in state {state.debug}"

def finalizeExit (exitEpoch : U64) : Except String ValidatorIdentity :=
  match validator.state with
  | .pendingExit => .ok { validator with state := .exited, exitedEpoch := some exitEpoch }
  | state => .error s!"Cannot finalize exit for validator in state {state.debug}"

variable (slashAmount : U128)

/-- What the three incidents have in common. -/
def penalize (factor : Float) : Except String ValidatorIdentity :=
  if validator.stake < slashAmount then
    .error s!"Slash amount {slashAmount.toNat} exceeds stake {validator.stake.toNat}"
  else .ok { validator with
    stake := saturatingSub validator.stake slashAmount
    totalSlashed := saturatingAdd validator.totalSlashed slashAmount
    reputation := validator.reputation * factor }

def slashForDoubleSigning : Except String ValidatorIdentity :=
  (validator.penalize slashAmount 0.5).map fun slashed =>
    { slashed with doubleSignCount := slashed.doubleSignCount + 1, state := .slashed }

def slashForEquivocation : Except String ValidatorIdentity :=
  (validator.penalize slashAmount 0.75).map fun slashed =>
    { slashed with equivocationCount := slashed.equivocationCount + 1, state := .slashed }

def recordDowntime : Except String ValidatorIdentity :=
  (validator.penalize slashAmount 0.95).map fun slashed =>
    { slashed with downtimeCount := slashed.downtimeCount + 1 }

def canParticipate : Bool :=
  decide (validator.state = .active) && decide (0.0 < validator.reputation) && decide (0 < validator.stake)
    && decide (validator.doubleSignCount = 0)

def isEjected : Bool :=
  decide (validator.state = .slashed ∨ validator.state = .ejected) || decide (0 < validator.doubleSignCount)

def effectiveStake : U128 := if validator.isEjected then 0 else validator.stake

end ValidatorIdentity

/-- A validator that may participate counts with its whole stake, which is
positive. -/
theorem ValidatorIdentity.effectiveStake_of_canParticipate {validator : ValidatorIdentity}
    (able : validator.canParticipate = true) :
    validator.effectiveStake = validator.stake ∧ 0 < validator.stake.toNat ∧ validator.doubleSignCount = 0 := by
  simp only [canParticipate, Bool.and_eq_true, decide_eq_true_eq] at able
  obtain ⟨⟨⟨active, -⟩, staked⟩, single⟩ := able
  refine ⟨?_, BitVec.lt_def.mp staked, single⟩
  simp [effectiveStake, isEjected, active, single]

/-- `BTreeSet` as the set of its elements; its iteration order appears where it
is read. -/
structure ValidatorRegistry where
  validators : HashMap String ValidatorIdentity
  activeValidators : Finset String
  totalActiveStake : U128

namespace ValidatorRegistry

def new : ValidatorRegistry := ⟨∅, ∅, 0⟩

variable (registry : ValidatorRegistry)

def registerValidator (validator : ValidatorIdentity) : Except String ValidatorRegistry :=
  if (registry.validators.lookup validator.id).isSome then .error s!"Validator {validator.id} already registered"
  else .ok { registry with validators := registry.validators.insert validator.id validator }

variable (id : String)

/-- `get_mut` followed by a fallible change of what it finds. -/
def modify (change : ValidatorIdentity → Except String ValidatorIdentity) :
    Except String (ValidatorIdentity × ValidatorRegistry) :=
  match registry.validators.lookup id with
  | none => .error s!"Validator {id} not found"
  | some validator => do
    let changed ← change validator
    return (changed, { registry with validators := registry.validators.insert id changed })

def activateValidator : Except String ValidatorRegistry := do
  let (validator, registry) ← registry.modify id ValidatorIdentity.activate
  return { registry with
    activeValidators := insert id registry.activeValidators
    totalActiveStake := saturatingAdd registry.totalActiveStake validator.stake }

def markValidatorForExit : Except String ValidatorRegistry := do
  let (validator, registry) ← registry.modify id ValidatorIdentity.markForExit
  return { registry with
    activeValidators := registry.activeValidators.erase id
    totalActiveStake := saturatingSub registry.totalActiveStake validator.stake }

def finalizeValidatorExit (epoch : U64) : Except String ValidatorRegistry := do
  let (_, registry) ← registry.modify id fun validator => validator.finalizeExit epoch
  return registry

variable (slashAmount : U128)

def slashValidatorDoubleSign : Except String ValidatorRegistry := do
  let (_, registry) ← registry.modify id fun validator => validator.slashForDoubleSigning slashAmount
  return { registry with
    activeValidators := registry.activeValidators.erase id
    totalActiveStake := saturatingSub registry.totalActiveStake slashAmount }

def slashValidatorEquivocation : Except String ValidatorRegistry := do
  let (_, registry) ← registry.modify id fun validator => validator.slashForEquivocation slashAmount
  return { registry with
    activeValidators := registry.activeValidators.erase id
    totalActiveStake := saturatingSub registry.totalActiveStake slashAmount }

def recordValidatorDowntime : Except String ValidatorRegistry := do
  let (_, registry) ← registry.modify id fun validator => validator.recordDowntime slashAmount
  return registry

def getActiveValidators : List ValidatorIdentity :=
  (registry.activeValidators.sort (· ≤ ·)).filterMap registry.validators.lookup

/-- The active validators that may participate: both sides of the network start
from this list. -/
def participants : List ValidatorIdentity := registry.getActiveValidators.filter ValidatorIdentity.canParticipate

end ValidatorRegistry

inductive RegistryCall
  | registerValidator (validator : ValidatorIdentity)
  | activateValidator (id : String)
  | markValidatorForExit (id : String)
  | finalizeValidatorExit (id : String) (epoch : U64)
  | slashValidatorDoubleSign (id : String) (slashAmount : U128)
  | slashValidatorEquivocation (id : String) (slashAmount : U128)
  | recordValidatorDowntime (id : String) (slashAmount : U128)

variable (registry : ValidatorRegistry)

def RegistryCall.perform : RegistryCall → Except String ValidatorRegistry
  | registerValidator validator => registry.registerValidator validator
  | activateValidator id => registry.activateValidator id
  | markValidatorForExit id => registry.markValidatorForExit id
  | finalizeValidatorExit id epoch => registry.finalizeValidatorExit id epoch
  | slashValidatorDoubleSign id slashAmount => registry.slashValidatorDoubleSign id slashAmount
  | slashValidatorEquivocation id slashAmount => registry.slashValidatorEquivocation id slashAmount
  | recordValidatorDowntime id slashAmount => registry.recordValidatorDowntime id slashAmount

/-- A call that fails leaves the registry as it was. -/
def RegistryCall.apply (call : RegistryCall) : ValidatorRegistry :=
  match call.perform registry with
  | .ok next => next
  | .error _ => registry

def ValidatorRegistry.run (calls : List RegistryCall) : ValidatorRegistry :=
  calls.foldl RegistryCall.apply registry

/-- The registries that the public operations lead to. What is done through
`get_mut` may be any change that keeps the validator's own id. -/
inductive ValidatorRegistry.Reached : ValidatorRegistry → Prop
  | new : Reached .new
  | call {registry : ValidatorRegistry} (reached : Reached registry) (call : RegistryCall) :
      Reached (call.apply registry)
  | getMut {registry : ValidatorRegistry} {id : String} {validator changed : ValidatorIdentity}
      (reached : Reached registry) (found : registry.validators.lookup id = some validator)
      (same : changed.id = validator.id) :
      Reached { registry with validators := registry.validators.insert id changed }

theorem ValidatorRegistry.Reached.run {registry : ValidatorRegistry} (reached : registry.Reached)
    (calls : List RegistryCall) : (registry.run calls).Reached :=
  foldlRecOn calls _ reached fun _ before call _ => before.call call

/-- Every validator stands under its own id. -/
def ValidatorRegistry.Keyed : Prop :=
  ∀ id validator, registry.validators.lookup id = some validator → validator.id = id

/-- The lifecycle of a validator, as far as the calls go. -/
inductive ValidatorState.Moves : ValidatorState → ValidatorState → Prop
  | stays {state : ValidatorState} : Moves state state
  | activates : Moves .inactive .active
  | leaves : Moves .active .pendingExit
  | exits : Moves .pendingExit .exited
  | slashes {state : ValidatorState} : Moves state .slashed

/-- What any of the calls may do to a registered validator. -/
structure ValidatorIdentity.Evolves (validator changed : ValidatorIdentity) : Prop where
  id : changed.id = validator.id
  moves : validator.state.Moves changed.state

section Keyed
variable {registry next : ValidatorRegistry} {validator changed : ValidatorIdentity} {id : String}

theorem ValidatorRegistry.modify_ok {change rest}
    (done : (registry.modify id change >>= rest) = .ok next) : ∃ validator changed,
      registry.validators.lookup id = some validator ∧ change validator = .ok changed ∧
      rest (changed, { registry with validators := registry.validators.insert id changed }) = .ok next := by
  obtain ⟨result, modified, finished⟩ := ok_of_bind done
  unfold modify at modified
  split at modified
  · cases modified
  rename_i validator found
  obtain ⟨changed, changes, returned⟩ := ok_of_bind modified
  cases returned
  exact ⟨validator, changed, found, changes, finished⟩

theorem ValidatorIdentity.activate_evolves (done : validator.activate = .ok changed) : validator.Evolves changed := by
  unfold activate at done
  split at done <;> cases done
  rename_i inactive
  exact ⟨rfl, inactive ▸ .activates⟩

theorem ValidatorIdentity.markForExit_evolves (done : validator.markForExit = .ok changed) :
    validator.Evolves changed := by
  unfold markForExit at done
  split at done <;> cases done
  rename_i active
  exact ⟨rfl, active ▸ .leaves⟩

theorem ValidatorIdentity.finalizeExit_evolves {epoch} (done : validator.finalizeExit epoch = .ok changed) :
    validator.Evolves changed := by
  unfold finalizeExit at done
  split at done <;> cases done
  rename_i leaving
  exact ⟨rfl, leaving ▸ .exits⟩

theorem ValidatorIdentity.penalize_evolves {slashAmount factor finish}
    (done : (validator.penalize slashAmount factor).map finish = .ok changed)
    (finishes : ∀ validator : ValidatorIdentity, validator.Evolves (finish validator)) : validator.Evolves changed := by
  unfold penalize at done
  split at done <;> cases done
  obtain ⟨id, moves⟩ := finishes { validator with
    stake := saturatingSub validator.stake slashAmount
    totalSlashed := saturatingAdd validator.totalSlashed slashAmount
    reputation := validator.reputation * factor }
  exact ⟨id, moves⟩

/-- What a successful call does to the table: it enters a validator under an
id that was free, or changes one validator. -/
theorem RegistryCall.validators_perform {call : RegistryCall} (done : call.perform registry = .ok next) :
    ∃ key value, next.validators = registry.validators.insert key value ∧
      (registry.validators.lookup key = none ∧ value.id = key ∨
        ∃ old, registry.validators.lookup key = some old ∧ old.Evolves value) := by
  have changes {id : String} {change : ValidatorIdentity → Except String ValidatorIdentity}
      {rest : ValidatorIdentity × ValidatorRegistry → Except String ValidatorRegistry}
      (done : (registry.modify id change >>= rest) = .ok next)
      (evolves : ∀ validator changed, change validator = .ok changed → validator.Evolves changed)
      (frame : ∀ validator after, rest (validator, after) = .ok next → next.validators = after.validators) :
      ∃ key value, next.validators = registry.validators.insert key value ∧
        (registry.validators.lookup key = none ∧ value.id = key ∨
          ∃ old, registry.validators.lookup key = some old ∧ old.Evolves value) := by
    obtain ⟨validator, changed, found, result, finished⟩ := ValidatorRegistry.modify_ok done
    exact ⟨id, changed, frame _ _ finished, .inr ⟨validator, found, evolves _ _ result⟩⟩
  cases call with
  | registerValidator validator =>
    simp only [perform, ValidatorRegistry.registerValidator] at done
    split at done <;> cases done
    rename_i free
    exact ⟨validator.id, validator, rfl, .inl ⟨Option.not_isSome_iff_eq_none.mp free, rfl⟩⟩
  | activateValidator id =>
    exact changes done (fun _ _ => ValidatorIdentity.activate_evolves) fun _ _ finished => by cases finished; rfl
  | markValidatorForExit id =>
    exact changes done (fun _ _ => ValidatorIdentity.markForExit_evolves) fun _ _ finished => by cases finished; rfl
  | finalizeValidatorExit id epoch =>
    exact changes done (fun _ _ => ValidatorIdentity.finalizeExit_evolves) fun _ _ finished => by cases finished; rfl
  | slashValidatorDoubleSign id slashAmount =>
    exact changes done (fun _ _ slashed => ValidatorIdentity.penalize_evolves slashed fun _ => ⟨rfl, .slashes⟩)
      fun _ _ finished => by cases finished; rfl
  | slashValidatorEquivocation id slashAmount =>
    exact changes done (fun _ _ slashed => ValidatorIdentity.penalize_evolves slashed fun _ => ⟨rfl, .slashes⟩)
      fun _ _ finished => by cases finished; rfl
  | recordValidatorDowntime id slashAmount =>
    exact changes done (fun _ _ recorded => ValidatorIdentity.penalize_evolves recorded fun _ => ⟨rfl, .stays⟩)
      fun _ _ finished => by cases finished; rfl

theorem ValidatorRegistry.Keyed.insert {key value} (keyed : registry.Keyed)
    (kept : value.id = key ∨ ∃ old, registry.validators.lookup key = some old ∧ value.id = old.id)
    (validators : next.validators = registry.validators.insert key value) : next.Keyed := by
  intro id validator found
  rw [validators] at found
  rcases lookup_insert_cases found with ⟨rfl, rfl⟩ | ⟨-, found⟩
  · rcases kept with own | ⟨old, before, same⟩
    · exact own
    · rw [same, keyed _ _ before]
  · exact keyed _ _ found

theorem ValidatorRegistry.Reached.keyed (reached : registry.Reached) : registry.Keyed := by
  induction reached with
  | new =>
    intro id validator found
    cases found
  | @call registry reached call ih =>
    unfold RegistryCall.apply
    split
    · rename_i next done
      obtain ⟨key, value, validators, ⟨-, own⟩ | ⟨old, found, evolves⟩⟩ := RegistryCall.validators_perform done
      · exact ih.insert (.inl own) validators
      · exact ih.insert (.inr ⟨old, found, evolves.id⟩) validators
    · exact ih
  | getMut reached found same ih => exact ih.insert (.inr ⟨_, found, same⟩) rfl

theorem ValidatorRegistry.mem_participants (keyed : registry.Keyed) : validator ∈ registry.participants ↔
    validator.id ∈ registry.activeValidators ∧ registry.validators.lookup validator.id = some validator ∧
      validator.canParticipate = true := by
  simp only [participants, getActiveValidators, mem_filter, mem_filterMap, Finset.mem_sort]
  constructor
  · rintro ⟨⟨id, active, found⟩, able⟩
    obtain rfl := keyed id validator found
    exact ⟨active, found, able⟩
  · rintro ⟨active, found, able⟩
    exact ⟨⟨_, active, found⟩, able⟩

/-- The set is read in increasing order, so no id is listed twice. -/
theorem ValidatorRegistry.participants_ids_nodup (keyed : registry.Keyed) :
    (registry.participants.map ValidatorIdentity.id).Nodup := by
  have entries : registry.getActiveValidators.map ValidatorIdentity.id =
      (registry.activeValidators.sort (· ≤ ·)).filter fun id => (registry.validators.lookup id).isSome := by
    rw [getActiveValidators]
    induction registry.activeValidators.sort (· ≤ ·) with
    | nil => rfl
    | cons id rest ih =>
      cases found : registry.validators.lookup id with
      | none => simp [found, ih]
      | some validator => simp [found, ih, keyed id validator found]
  have sorted := (registry.activeValidators.sort_nodup (· ≤ ·)).filter fun id => (registry.validators.lookup id).isSome
  rw [← entries] at sorted
  exact sorted.sublist (filter_sublist.map _)

end Keyed

/-- What `ValidatorIdentity::new` makes of a Kyber key of zeros. -/
def freshValidator (id signingKeyId : String) (stake : U128) : ValidatorIdentity where
  id := id
  kyberPublicKey := List.replicate 1568 0
  signingKeyId := signingKeyId
  vrfPublicKey := []
  stake := stake
  state := .inactive
  reputation := 1.0
  doubleSignCount := 0
  equivocationCount := 0
  downtimeCount := 0
  joinedEpoch := 0
  exitedEpoch := none
  totalSlashed := 0

theorem freshValidator_new {id signingKeyId stake} (named : id.isEmpty = false) (staked : stake ≠ 0) :
    ValidatorIdentity.new id (List.replicate 1568 0) signingKeyId stake 0 =
      .ok (freshValidator id signingKeyId stake) := by
  have size : ¬(replicate 1568 (0 : UInt8)).length ≠ 1568 := not_not.mpr length_replicate
  simp only [ValidatorIdentity.new, named, Bool.false_eq_true, if_false, staked, size]
  rfl

variable (signingKeyId : String)

def loneRegistry : ValidatorRegistry :=
  ValidatorRegistry.new.run [.registerValidator (freshValidator "alice" signingKeyId 4), .activateValidator "alice"]

theorem lookup_lone : (loneRegistry signingKeyId).validators.lookup "alice" =
    some { freshValidator "alice" signingKeyId 4 with state := .active } := rfl

theorem getActiveValidators_lone : (loneRegistry signingKeyId).getActiveValidators =
    [{ freshValidator "alice" signingKeyId 4 with state := .active }] := by
  have sorted : (loneRegistry signingKeyId).activeValidators.sort (· ≤ ·) = ["alice"] := Finset.sort_singleton _ _
  rw [ValidatorRegistry.getActiveValidators, sorted, filterMap_cons, lookup_lone]
  rfl

theorem lone_canParticipate :
    ({ freshValidator "alice" signingKeyId 4 with state := .active } : ValidatorIdentity).canParticipate = true := by
  have trusted : (0.0 : Float) < 1.0 := by decide
  have staked : (0 : U128) < 4 := by decide
  simp only [ValidatorIdentity.canParticipate, freshValidator, trusted, staked, decide_true, Bool.and_self]

end Bleep
