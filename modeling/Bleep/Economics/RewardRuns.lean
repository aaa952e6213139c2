import Bleep.Economics.Settlement
import Mathlib.Algebra.BigOperators.Intervals

namespace Bleep.Economics

open HashTable Words Results OrderedStore Ledger List Nat Option

namespace ValidatorIncentivesEngine

variable {self : ValidatorIncentivesEngine} {sha256 : Bytes → Hash32} {metrics : ValidatorMetrics}
  {list : List ValidatorMetrics}

theorem noteMetrics_eq (self : ValidatorIncentivesEngine) (metrics : ValidatorMetrics) : noteMetrics self metrics =
    if (self.validators.lookup metrics.validatorId).isSome = true then
      { self with currentMetrics := self.currentMetrics.insert metrics.validatorId metrics }
    else self := by
  unfold noteMetrics recordMetrics ensure
  split <;> rfl

theorem lookup_noteMetrics (self : ValidatorIncentivesEngine) (metrics : ValidatorMetrics) (validatorId : Bytes) :
    (noteMetrics self metrics).currentMetrics.lookup validatorId =
      if (self.validators.lookup validatorId).isSome = true ∧ metrics.validatorId = validatorId then some metrics
      else self.currentMetrics.lookup validatorId := by
  rw [noteMetrics_eq]
  by_cases named : metrics.validatorId = validatorId
  · subst named
    split
    · rename_i registered
      rw [if_pos ⟨registered, rfl⟩, AList.lookup_insert]
    · rename_i unregistered
      rw [if_neg fun both => unregistered both.1]
  · rw [if_neg (c := _ ∧ _) fun both => named both.2]
    split
    · exact AList.lookup_insert_ne (Ne.symm named)
    · rfl

theorem recordAll_frame (list : List ValidatorMetrics) (self : ValidatorIncentivesEngine) :
    (list.foldl noteMetrics self).validators = self.validators ∧
      (list.foldl noteMetrics self).rewardParams = self.rewardParams := by
  induction list generalizing self with
  | nil => exact ⟨rfl, rfl⟩
  | cons metrics list ih =>
    rw [foldl_cons, (ih _).1, (ih _).2, noteMetrics_eq]
    constructor <;> split <;> rfl

theorem validators_noteMetrics (self : ValidatorIncentivesEngine) (metrics : ValidatorMetrics) :
    (noteMetrics self metrics).validators = self.validators := (recordAll_frame [metrics] self).1

/-- An entry for a validator that is registered. -/
def Listed (self : ValidatorIncentivesEngine) (list : List ValidatorMetrics) (validatorId : Bytes) : Prop :=
  (self.validators.lookup validatorId).isSome = true ∧ ∃ metrics ∈ list, metrics.validatorId = validatorId

variable {last : ValidatorMetrics} {validatorId : Bytes}

/-- A validator's metrics after a list is recorded are its last entry of the
list, or what it had where the list has none. -/
theorem lookup_recordAll (found : (list.foldl noteMetrics self).currentMetrics.lookup validatorId = some metrics) :
    ((self.validators.lookup validatorId).isSome = true ∧ ∃ i : ℕ, list[i]? = some metrics ∧
      metrics.validatorId = validatorId ∧
      ∀ (j : ℕ) (other : ValidatorMetrics), list[j]? = some other → other.validatorId = validatorId → j ≤ i) ∨
    (¬ self.Listed list validatorId ∧ self.currentMetrics.lookup validatorId = some metrics) := by
  induction list generalizing self with
  | nil => exact .inr ⟨fun ⟨_, _, member, _⟩ => (by cases member), found⟩
  | cons first rest ih =>
    have accounts := validators_noteMetrics self first
    rcases ih found with ⟨registered, i, here, named, greatest⟩ | ⟨unlisted, old⟩
    · refine .inl ⟨accounts ▸ registered, i + 1, here, named, fun j other there same => ?_⟩
      cases j with
      | zero => exact zero_le _
      | succ j => exact succ_le_succ (greatest j other there same)
    rw [Listed, accounts] at unlisted
    rw [lookup_noteMetrics] at old
    split at old
    · rename_i here
      cases old
      refine .inl ⟨here.1, 0, rfl, here.2, fun j other there same => ?_⟩
      cases j with
      | zero => exact le_rfl
      | succ j => exact absurd ⟨here.1, other, mem_of_getElem? there, same⟩ unlisted
    · rename_i elsewhere
      refine .inr ⟨fun ⟨registered, metrics', member, named⟩ => ?_, old⟩
      rcases mem_cons.mp member with rfl | later
      · exact elsewhere ⟨registered, named⟩
      · exact unlisted ⟨registered, metrics', later, named⟩

theorem isSome_recordAll (known : self.Listed list validatorId ∨ (self.currentMetrics.lookup validatorId).isSome = true) :
    ((list.foldl noteMetrics self).currentMetrics.lookup validatorId).isSome = true := by
  induction list generalizing self with
  | nil =>
    rcases known with ⟨-, _, member, -⟩ | held
    · cases member
    · exact held
  | cons first rest ih =>
    refine ih ?_
    rw [Listed, validators_noteMetrics, lookup_noteMetrics]
    rcases known with ⟨registered, metrics, member, rfl⟩ | held
    · rcases mem_cons.mp member with rfl | later
      · rw [if_pos ⟨registered, rfl⟩]
        exact .inr rfl
      · exact .inl ⟨registered, metrics, later, rfl⟩
    · refine .inr ?_
      split
      · rfl
      · exact held

theorem isSome_reward (self : ValidatorIncentivesEngine) (record : RewardRecord) (validatorId : Bytes) :
    ((self.reward record).validators.lookup validatorId).isSome = (self.validators.lookup validatorId).isSome := by
  unfold reward
  split
  · rfl
  · rename_i account found
    exact lookup_insert_congr isSome (by rw [found]; rfl) validatorId

theorem rewards_frame (records : List RewardRecord) (self : ValidatorIncentivesEngine) :
    (records.foldl reward self).currentMetrics = self.currentMetrics ∧
      (records.foldl reward self).rewardParams = self.rewardParams ∧
      ∀ validatorId, ((records.foldl reward self).validators.lookup validatorId).isSome =
        (self.validators.lookup validatorId).isSome := by
  induction records generalizing self with
  | nil => exact ⟨rfl, rfl, fun _ => rfl⟩
  | cons record records ih =>
    obtain ⟨metrics, params, accounts⟩ := ih (self.reward record)
    exact ⟨metrics, params, fun validatorId => (accounts validatorId).trans (isSome_reward self record validatorId)⟩

def paid (self : ValidatorIncentivesEngine) : ℕ :=
  ((pairs self.validators).map fun entry => entry.2.totalRewards.toNat).sum

theorem paid_reward {record} (known : (self.validators.lookup record.validatorId).isSome = true)
    (fits : self.paid + record.totalReward.toNat < 2 ^ 128) :
    (self.reward record).paid = self.paid + record.totalReward.toNat := by
  obtain ⟨account, found⟩ := isSome_iff_exists.mp known
  have weighed : ofMap (fun account : ValidatorAccount => account.totalRewards.toNat) self.validators
      record.validatorId = account.totalRewards.toNat := by
    rw [ofMap_apply, found]
    rfl
  have held := le_total (ofMap (fun account : ValidatorAccount => account.totalRewards.toNat)
    self.validators) record.validatorId
  have written := total_update (ofMap (fun account : ValidatorAccount => account.totalRewards.toNat)
    self.validators) record.validatorId (saturatingAdd account.totalRewards record.totalReward).toNat
  have inserted := @Ledger.ofMap_insert _ _ _ (fun account : ValidatorAccount => account.totalRewards.toNat)
    self.validators record.validatorId
    { account with totalRewards := saturatingAdd account.totalRewards record.totalReward }
  rw [← inserted, weighed, total_ofMap, total_ofMap, toNat_saturatingAdd] at written
  rw [weighed, total_ofMap] at held
  have after : (self.reward record).paid = ((pairs (self.validators.insert record.validatorId
      { account with totalRewards := saturatingAdd account.totalRewards record.totalReward })).map
        fun entry => entry.2.totalRewards.toNat).sum := by
    rw [paid, reward]
    simp only [found]
  have before : self.paid = ((pairs self.validators).map fun entry => entry.2.totalRewards.toNat).sum := rfl
  omega

/-- What a list of records adds up to. -/
def due (records : List RewardRecord) : ℕ := (records.map fun record => record.totalReward.toNat).sum

theorem paid_rewards {records}
    (known : ∀ record ∈ records, (self.validators.lookup record.validatorId).isSome = true)
    (fits : self.paid + due records < 2 ^ 128) : (records.foldl reward self).paid = self.paid + due records := by
  induction records generalizing self with
  | nil => rfl
  | cons record records ih =>
    rw [forall_mem_cons] at known
    have sum : due (record :: records) = record.totalReward.toNat + due records := rfl
    have first := paid_reward known.1 (by omega)
    have rest := @ih (self.reward record) (fun record' member => by rw [isSome_reward]; exact known.2 record' member)
      (by omega)
    rw [foldl_cons, rest, first, sum]
    omega

end ValidatorIncentivesEngine

open BleepEconomicsRuntime ValidatorIncentivesEngine

/-- An epoch and what the clock shows when it is processed. -/
structure EpochCall where
  now : U64
  input : EpochInput

section Runs

variable (sha256 : Bytes → Hash32) (sphincs : Sphincs) (start : BleepEconomicsRuntime) (calls : List EpochCall)

/-- The runtime before the `n`-th epoch is processed. -/
def runtimeAt (n : Nat) : BleepEconomicsRuntime :=
  (calls.take n).foldl (fun self call => (processEpoch sha256 sphincs call.now call.input self).2) start

/-- The validators are rewarded in this call. -/
def Reached (n : Nat) : Prop :=
  ∃ call, calls[n]? = some call ∧
    prepared sha256 sphincs (runtimeAt sha256 sphincs start calls n) call.now call.input = true

/-- The `i`-th entry of the `n`-th input is recorded. -/
def Recorded (n i : Nat) (metrics : ValidatorMetrics) : Prop :=
  ∃ call, calls[n]? = some call ∧
    prepared sha256 sphincs (runtimeAt sha256 sphincs start calls n) call.now call.input = true ∧
    call.input.validatorMetrics[i]? = some metrics ∧
    ((runtimeAt sha256 sphincs start calls n).state.validators.validators.lookup metrics.validatorId).isSome = true

/-- The entry is the last one recorded for its validator before the call. -/
def Newest (n i : Nat) (metrics : ValidatorMetrics) (bound : Nat) : Prop :=
  Recorded sha256 sphincs start calls n i metrics ∧ n < bound ∧
    ∀ n' i' metrics', Recorded sha256 sphincs start calls n' i' metrics' →
      metrics'.validatorId = metrics.validatorId → n' < bound → n' < n ∨ n' = n ∧ i' ≤ i

/-- The entry is rewarded in the `k`-th call: it is then the last one of its
validator. -/
def Rewarded (n i : Nat) (metrics : ValidatorMetrics) (k : Nat) : Prop :=
  Reached sha256 sphincs start calls k ∧ Newest sha256 sphincs start calls n i metrics (k + 1)

/-- The input has at most one entry for a validator that is registered, and one
for each validator that had one before. -/
def OnePerValidator (n : Nat) (input : EpochInput) : Prop :=
  (∀ (i j : Nat) (metrics metrics' : ValidatorMetrics), input.validatorMetrics[i]? = some metrics →
    input.validatorMetrics[j]? = some metrics' → metrics.validatorId = metrics'.validatorId →
    ((runtimeAt sha256 sphincs start calls n).state.validators.validators.lookup metrics.validatorId).isSome = true →
    i = j) ∧
  ∀ n' i' metrics', Recorded sha256 sphincs start calls n' i' metrics' → n' < n →
    ∃ metrics ∈ input.validatorMetrics, metrics.validatorId = metrics'.validatorId

variable (self : BleepEconomicsRuntime)

/-- The records of an epoch, whether or not it is settled in the end. -/
def recordsOf (input : EpochInput) : List RewardRecord :=
  ((self.recorded input).computeEpochRewards sha256 input.epoch).1

variable {calls}

/-- What the validator has at a time: the last entry recorded for it, or what it
had at the start. -/
def Held (n : Nat) (validatorId : Bytes) (metrics : ValidatorMetrics) : Prop :=
  (∃ k i, Newest sha256 sphincs start calls k i metrics n ∧ metrics.validatorId = validatorId) ∨
    (∀ k i metrics', Recorded sha256 sphincs start calls k i metrics' → metrics'.validatorId = validatorId → n ≤ k) ∧
      start.state.validators.currentMetrics.lookup validatorId = some metrics

def MetricsRegistered (self : ValidatorIncentivesEngine) : Prop :=
  ∀ validatorId, (self.currentMetrics.lookup validatorId).isSome = true →
    (self.validators.lookup validatorId).isSome = true

/-- What the epoch reports as emitted: nothing where it is not settled. -/
def emittedIn (call : EpochCall) : ℕ :=
  match (processEpoch sha256 sphincs call.now call.input self).1 with
  | .ok out => out.totalEmitted.toNat
  | .error _ => 0

def emittedAt (n : Nat) : ℕ :=
  ((calls[n]?).map (emittedIn sha256 sphincs (runtimeAt sha256 sphincs start calls n))).getD 0

/-- An epoch that is not settled after the validators were rewarded gives them
nothing. -/
def PaysOnlySettled (call : EpochCall) : Prop :=
  prepared sha256 sphincs self call.now call.input = true →
    (processEpoch sha256 sphincs call.now call.input self).1.isOk = false → due (recordsOf sha256 self call.input) = 0

end Runs

structure EpochRun where
  sha256 : Bytes → Hash32
  sphincs : Sphincs
  start : BleepEconomicsRuntime
  calls : List EpochCall

namespace EpochRun

variable (run : EpochRun)

abbrev runtime := runtimeAt run.sha256 run.sphincs run.start run.calls
abbrev Reached := Economics.Reached run.sha256 run.sphincs run.start run.calls
abbrev Recorded := Economics.Recorded run.sha256 run.sphincs run.start run.calls
abbrev Newest := Economics.Newest run.sha256 run.sphincs run.start run.calls
abbrev Rewarded := Economics.Rewarded run.sha256 run.sphincs run.start run.calls
abbrev OnePerValidator := Economics.OnePerValidator run.sha256 run.sphincs run.start run.calls
abbrev Held := @Economics.Held run.sha256 run.sphincs run.start run.calls
abbrev emitted := @emittedAt run.sha256 run.sphincs run.start run.calls

/-- The call is the next one, and the validators are rewarded in it. -/
abbrev Takes (n : Nat) (call : EpochCall) : Prop :=
  run.calls[n]? = some call ∧ prepared run.sha256 run.sphincs (run.runtime n) call.now call.input = true

variable {run}

variable {call : EpochCall} {n i bound : Nat} {metrics : ValidatorMetrics}

theorem runtimeAt_succ (here : run.calls[n]? = some call) :
    run.runtime (n + 1) = (processEpoch run.sha256 run.sphincs call.now call.input (run.runtime n)).2 :=
  Runs.foldl_take_succ here

theorem runtimeAt_stop (ended : run.calls[n]? = none) : run.runtime (n + 1) = run.runtime n :=
  Runs.foldl_take_stop ended

theorem validators_of_prepared (taken : run.Takes n call) :
    (run.runtime (n + 1)).state.validators = (((run.runtime n).recorded call.input).computeEpochRewards run.sha256
        call.input.epoch).2 := by
  rw [runtimeAt_succ taken.1, validators_processEpoch, if_pos taken.2]

theorem validators_of_not_reached (not : ¬ run.Reached n) :
    (run.runtime (n + 1)).state.validators = (run.runtime n).state.validators := by
  cases here : run.calls[n]? with
  | none => rw [runtimeAt_stop here]
  | some call =>
    rw [runtimeAt_succ here, validators_processEpoch, if_neg]
    exact fun reaches => not ⟨call, here, reaches⟩

theorem reached_of_recorded (entry : run.Recorded n i metrics) : run.Reached n := by
  obtain ⟨call, here, reaches, -, -⟩ := entry
  exact ⟨call, here, reaches⟩

theorem metrics_of_prepared (taken : run.Takes n call) :
    (run.runtime (n + 1)).state.validators.currentMetrics = ((run.runtime n).recorded call.input).currentMetrics := by
  rw [validators_of_prepared taken]
  exact (rewards_frame _ _).1

/-- No account is added or removed, and the parameters stay. -/
theorem validators_frame (n : Nat) :
    (run.runtime n).state.validators.rewardParams = run.start.state.validators.rewardParams ∧
      ∀ validatorId, ((run.runtime n).state.validators.validators.lookup validatorId).isSome =
        (run.start.state.validators.validators.lookup validatorId).isSome := by
  induction n with
  | zero => exact ⟨rfl, fun _ => rfl⟩
  | succ n ih =>
    by_cases reached : run.Reached n
    · obtain ⟨call, taken⟩ := reached
      obtain ⟨-, params, accounts⟩ := rewards_frame (recordsOf run.sha256 (run.runtime n) call.input)
        ((run.runtime n).recorded call.input)
      obtain ⟨sameAccounts, sameParams⟩ := recordAll_frame call.input.validatorMetrics (run.runtime n).state.validators
      rw [validators_of_prepared taken]
      refine ⟨(params.trans sameParams).trans ih.1, fun validatorId => (accounts validatorId).trans ?_⟩
      rw [← ih.2 validatorId, ← sameAccounts]
      rfl
    · rw [validators_of_not_reached reached]
      exact ih

/-- The input of the call is the only place where an entry of its time stands. -/
theorem fields_of_recorded (entry : run.Recorded n i metrics) (here : run.calls[n]? = some call) :
    call.input.validatorMetrics[i]? = some metrics ∧
      ((run.runtime n).state.validators.validators.lookup metrics.validatorId).isSome
        = true := by
  obtain ⟨call', here', -, found, registered⟩ := entry
  obtain rfl : call = call' := some.inj (here.symm.trans here')
  exact ⟨found, registered⟩

section Held
variable {validatorId : Bytes}

/-- A call without an entry for the validator changes nothing for it. -/
theorem held_succ (held : run.Held n validatorId metrics)
    (quiet : ∀ i metrics', run.Recorded n i metrics' → metrics'.validatorId ≠ validatorId) :
    run.Held (n + 1) validatorId metrics := by
  have earlier {k i : Nat} {metrics' : ValidatorMetrics} (entry : run.Recorded k i metrics')
      (named : metrics'.validatorId = validatorId) : k ≠ n := by
    rintro rfl
    exact quiet i metrics' entry named
  rcases held with ⟨k, i, ⟨entry, before, newest⟩, named⟩ | ⟨none, held⟩
  · refine .inl ⟨k, i, ⟨entry, by omega, fun n' i' metrics' entry' same bound => newest n' i' metrics' entry' same ?_⟩, named⟩
    have := earlier entry' (same.trans named)
    omega
  · refine .inr ⟨fun k i metrics' entry named => ?_, held⟩
    have := none k i metrics' entry named
    have := earlier entry named
    omega

theorem held_of_lookup (found : (run.runtime n).state.validators.currentMetrics.lookup validatorId = some metrics) :
    run.Held n validatorId metrics := by
  induction n generalizing metrics with
  | zero => exact .inr ⟨fun k _ _ _ _ => zero_le k, found⟩
  | succ n ih =>
    by_cases reached : run.Reached n
    · obtain ⟨call, taken⟩ := reached
      rw [metrics_of_prepared taken] at found
      rcases lookup_recordAll found with ⟨registered, i, here, named, greatest⟩ | ⟨unlisted, old⟩
      · refine .inl ⟨n, i, ⟨⟨call, taken.1, taken.2, here, named ▸ registered⟩, lt_succ_self n, ?_⟩, named⟩
        intro n' i' metrics' entry same earlier
        rcases Nat.lt_succ_iff_lt_or_eq.mp earlier with earlier | rfl
        · exact .inl earlier
        · exact .inr ⟨rfl, greatest i' metrics' (fields_of_recorded entry taken.1).1 (same.trans named)⟩
      · refine held_succ (ih old) fun i metrics' entry named => ?_
        obtain ⟨there, registered⟩ := fields_of_recorded entry taken.1
        exact unlisted ⟨named ▸ registered, metrics', mem_of_getElem? there, named⟩
    · rw [validators_of_not_reached reached] at found
      exact held_succ (ih found) fun i metrics' entry _ => reached (reached_of_recorded entry)

theorem held_unique {metrics'} (held : run.Held n validatorId metrics)
    (held' : run.Held n validatorId metrics') : metrics = metrics' := by
  rcases held with ⟨k, i, ⟨entry, before, newest⟩, named⟩ | ⟨none, held⟩
  · rcases held' with ⟨k', i', ⟨entry', before', newest'⟩, named'⟩ | ⟨none, -⟩
    · have := newest k' i' metrics' entry' (named'.trans named.symm) before'
      have := newest' k i metrics entry (named.trans named'.symm) before
      obtain ⟨rfl, rfl⟩ : k = k' ∧ i = i' := by omega
      obtain ⟨call, here, -, found, -⟩ := entry
      exact some.inj (found.symm.trans (fields_of_recorded entry' here).1)
    · have := none k i metrics entry named
      omega
  · rcases held' with ⟨k', i', ⟨entry', before', -⟩, named'⟩ | ⟨-, held'⟩
    · have := none k' i' metrics' entry' named'
      omega
    · exact some.inj (held.symm.trans held')

theorem isSome_mono (late : n ≤ bound)
    (held : ((run.runtime n).state.validators.currentMetrics.lookup validatorId).isSome = true) :
    ((run.runtime bound).state.validators.currentMetrics.lookup validatorId).isSome = true := by
  induction late with
  | refl => exact held
  | @step k _ ih =>
    by_cases reached : run.Reached k
    · obtain ⟨call, taken⟩ := reached
      rw [metrics_of_prepared taken]
      exact isSome_recordAll (.inr ih)
    · rw [validators_of_not_reached reached]
      exact ih

theorem isSome_metrics (entry : run.Recorded n i metrics) (before : n < bound) :
    ((run.runtime bound).state.validators.currentMetrics.lookup metrics.validatorId).isSome = true := by
  obtain ⟨call, here, reaches, found, registered⟩ := entry
  refine isSome_mono before ?_
  rw [metrics_of_prepared ⟨here, reaches⟩]
  exact isSome_recordAll (.inl ⟨registered, metrics, mem_of_getElem? found, rfl⟩)

theorem lookup_metrics_iff : (run.runtime n).state.validators.currentMetrics.lookup validatorId = some metrics ↔
    run.Held n validatorId metrics := by
  refine ⟨held_of_lookup, fun held => ?_⟩
  have known : ((run.runtime n).state.validators.currentMetrics.lookup validatorId).isSome = true := by
    rcases held with ⟨k, i, ⟨entry, before, -⟩, rfl⟩ | ⟨-, held⟩
    · exact isSome_metrics entry before
    · exact isSome_mono (zero_le n) (isSome_of_eq_some held)
  obtain ⟨metrics', found⟩ := isSome_iff_exists.mp known
  rw [held_unique held (held_of_lookup found)]
  exact found

end Held

theorem exists_newest (entry : run.Recorded n i metrics) (before : n < bound) :
    ∃ n' i' metrics', run.Newest n' i' metrics' bound ∧
      metrics'.validatorId = metrics.validatorId := by
  obtain ⟨metrics', held⟩ := isSome_iff_exists.mp (isSome_metrics entry before)
  rcases held_of_lookup held with ⟨k, i', newest, named⟩ | ⟨none, -⟩
  · exact ⟨k, i', metrics', newest, named⟩
  · exact absurd (none n i metrics entry rfl) (not_le.mpr before)

/-- Of two entries for one validator the earlier one is never rewarded, and
without a new entry the newest one is rewarded again. -/
theorem onePerValidator_of_once (once : ∀ n i metrics, run.Recorded n i metrics →
      ∃! k, run.Rewarded n i metrics k) {n call} (taken : run.Takes n call) :
    run.OnePerValidator n call.input := by
  constructor
  · have last {i j : Nat} {metrics metrics' : ValidatorMetrics} (first : call.input.validatorMetrics[i]? = some metrics)
        (second : call.input.validatorMetrics[j]? = some metrics') (same : metrics.validatorId = metrics'.validatorId)
        (registered : ((run.runtime n).state.validators.validators.lookup
          metrics.validatorId).isSome = true) : j ≤ i := by
      obtain ⟨k, ⟨-, -, before, newest⟩, -⟩ := once n i metrics ⟨call, taken.1, taken.2, first, registered⟩
      have := newest n j metrics' ⟨call, taken.1, taken.2, second, same ▸ registered⟩ same.symm before
      omega
    intro i j metrics metrics' first second same registered
    exact le_antisymm (last second first same.symm (same ▸ registered)) (last first second same registered)
  · intro n' i' metrics' entry earlier
    by_contra missing
    obtain ⟨k, i, metrics, ⟨recorded, before, newest⟩, named⟩ := exists_newest entry earlier
    obtain ⟨_, -, unique⟩ := once k i metrics recorded
    have then_ : run.Rewarded k i metrics k := ⟨reached_of_recorded recorded, recorded, lt_succ_self k,
        fun n'' i'' metrics'' entry'' same lower => newest n'' i'' metrics'' entry'' same (by omega)⟩
    have again : run.Rewarded k i metrics n := by
      refine ⟨⟨call, taken⟩, recorded, by omega, fun n'' i'' metrics'' entry'' same lower => ?_⟩
      rcases Nat.lt_succ_iff_lt_or_eq.mp lower with lower | rfl
      · exact newest n'' i'' metrics'' entry'' same lower
      · have found := (fields_of_recorded entry'' taken.1).1
        exact absurd ⟨metrics'', mem_of_getElem? found, same.trans named⟩ missing
    have := (unique k then_).trans (unique n again).symm
    omega

/-- With one entry per validator each entry is rewarded in its own call. -/
theorem once_of_onePerValidator (each : ∀ n call, run.Takes n call →
      run.OnePerValidator n call.input) {n i metrics} (entry : run.Recorded n i metrics) :
    ∃! k, run.Rewarded n i metrics k := by
  obtain ⟨call, taken⟩ := reached_of_recorded entry
  obtain ⟨found, registered⟩ := fields_of_recorded entry taken.1
  refine ⟨n, ⟨⟨call, taken⟩, entry, lt_succ_self n, ?_⟩, ?_⟩
  · intro n' i' metrics' entry' same lower
    rcases Nat.lt_succ_iff_lt_or_eq.mp lower with lower | rfl
    · exact .inl lower
    · have found' := (fields_of_recorded entry' taken.1).1
      exact .inr ⟨rfl, ((each n' call taken).1 i i' metrics metrics' found found' same.symm registered).ge⟩
  · rintro k ⟨⟨call', taken'⟩, -, before, newest⟩
    by_contra later
    obtain ⟨metrics', member, named⟩ := (each k call' taken').2 n i metrics entry (by omega)
    obtain ⟨j, found'⟩ := mem_iff_getElem?.mp member
    have registered' : ((run.runtime k).state.validators.validators.lookup
        metrics'.validatorId).isSome = true := by
      rw [(validators_frame n).2] at registered
      rw [(validators_frame k).2, named]
      exact registered
    have := newest k j metrics' ⟨call', taken'.1, taken'.2, found', registered'⟩ named (lt_succ_self k)
    omega

theorem mem_recordsOf {n call} (taken : run.Takes n call) (record : RewardRecord) :
    record ∈ recordsOf run.sha256 (run.runtime n) call.input ↔
      ∃ validatorId metrics, run.Held (n + 1) validatorId metrics ∧
        record = rewardRecord run.sha256 run.start.state.validators.rewardParams call.input.epoch validatorId metrics := by
  have params : ((run.runtime n).recorded call.input).rewardParams = run.start.state.validators.rewardParams := by
    rw [BleepEconomicsRuntime.recorded, (recordAll_frame _ _).2]
    exact (validators_frame n).1
  have holds {validatorId : Bytes} {metrics : ValidatorMetrics} := @lookup_metrics_iff run (n + 1) metrics validatorId
  rw [metrics_of_prepared taken] at holds
  rw [recordsOf, computeEpochRewards, List.mem_map, params]
  constructor
  · rintro ⟨⟨validatorId, metrics⟩, member, rfl⟩
    exact ⟨validatorId, metrics, holds.mp (mem_scanFrom_nil.mp member), rfl⟩
  · rintro ⟨validatorId, metrics, held, rfl⟩
    exact ⟨(validatorId, metrics), mem_scanFrom_nil.mpr (holds.mpr held), rfl⟩

section Payments

variable (registered : MetricsRegistered run.start.state.validators) {call : EpochCall}

include registered in
theorem paid_of_prepared {n} (taken : run.Takes n call) (fits : (run.runtime n).state.validators.paid +
      due (recordsOf run.sha256 (run.runtime n) call.input) < 2 ^ 128) :
    (run.runtime (n + 1)).state.validators.paid = (run.runtime n).state.validators.paid +
        due (recordsOf run.sha256 (run.runtime n) call.input) := by
  have same : ((run.runtime n).recorded call.input).paid = (run.runtime n).state.validators.paid := by
    rw [paid, paid, BleepEconomicsRuntime.recorded, (recordAll_frame _ _).1]
  rw [validators_of_prepared taken, ← same]
  rw [← same] at fits
  refine paid_rewards (fun record member => ?_) fits
  obtain ⟨validatorId, metrics, held, rfl⟩ := (mem_recordsOf taken record).mp member
  rw [BleepEconomicsRuntime.recorded, (recordAll_frame _ _).1, (validators_frame n).2]
  rcases held with ⟨k, i, ⟨⟨_, -, -, -, account⟩, -, -⟩, rfl⟩ | ⟨-, held⟩
  · rwa [(validators_frame k).2] at account
  · exact registered validatorId (by rw [held]; rfl)

variable {self : BleepEconomicsRuntime}

theorem emittedIn_of_ok (settles : (processEpoch run.sha256 run.sphincs call.now call.input self).1.isOk = true)
    (fits : due (recordsOf run.sha256 self call.input) < 2 ^ 128) :
    emittedIn run.sha256 run.sphincs self call = due (recordsOf run.sha256 self call.input) := by
  rcases ran : processEpoch run.sha256 run.sphincs call.now call.input self with ⟨e | out, after⟩
  · rw [ran] at settles
    cases settles
  · obtain ⟨-, records, emitted, -⟩ := ok_processEpoch ran
    rw [emittedIn, ran]
    change out.totalEmitted.toNat = _
    rw [emitted, records, totalEmitted, toNat_foldl_add, List.map_map]
    exact mod_eq_of_lt fits

theorem emittedIn_of_error (failed : (processEpoch run.sha256 run.sphincs call.now call.input self).1.isOk = false) :
    emittedIn run.sha256 run.sphincs self call = 0 := by
  unfold emittedIn
  split
  · rename_i done
    rw [done] at failed
    cases failed
  · rfl

variable (bounded : ∀ n call, run.Takes n call →
  (run.runtime n).state.validators.paid + due (recordsOf run.sha256 (run.runtime n) call.input) < 2 ^ 128)

include registered bounded in
theorem paid_succ_iff (n : Nat) :
    (run.runtime (n + 1)).state.validators.paid = (run.runtime n).state.validators.paid + run.emitted n ↔
      ∀ call, run.calls[n]? = some call →
        PaysOnlySettled run.sha256 run.sphincs (run.runtime n) call := by
  cases here : run.calls[n]? with
  | none =>
    rw [runtimeAt_stop here, emitted, emittedAt, here]
    exact iff_of_true rfl fun call absent => by cases absent
  | some call =>
    rw [emitted, emittedAt, here, map_some, getD_some]
    have one : (∀ call', some call = some call' →
        PaysOnlySettled run.sha256 run.sphincs (run.runtime n) call') ↔
        PaysOnlySettled run.sha256 run.sphincs (run.runtime n) call := by simp
    rw [one]
    by_cases reaches : prepared run.sha256 run.sphincs (run.runtime n) call.now call.input = true
    · have taken : run.Takes n call := ⟨here, reaches⟩
      have fits := bounded n call taken
      rw [paid_of_prepared registered taken fits]
      cases settles : (processEpoch run.sha256 run.sphincs call.now call.input (run.runtime n)).1.isOk with
      | true =>
        rw [emittedIn_of_ok settles (by omega)]
        refine iff_of_true rfl fun _ failed => ?_
        rw [settles] at failed
        cases failed
      | false =>
        rw [emittedIn_of_error settles]
        constructor
        · intro same _ _
          omega
        · intro pays
          rw [pays reaches settles]
    · have failed : (processEpoch run.sha256 run.sphincs call.now call.input
          (run.runtime n)).1.isOk = false := by
        rcases ran : processEpoch run.sha256 run.sphincs call.now call.input (run.runtime n) with
          ⟨e | out, after⟩
        · rfl
        · exact absurd (ok_processEpoch ran).1 reaches
      rw [validators_of_not_reached, emittedIn_of_error failed]
      · exact iff_of_true rfl fun reached => absurd reached reaches
      · rintro ⟨call', here', reached⟩
        obtain rfl : call = call' := some.inj (here.symm.trans here')
        exact reaches reached

include registered bounded in
/-- What the validators have been given is what was emitted, all the time,
exactly when no epoch rewards them and then fails. -/
theorem paid_iff :
    (∀ n, (run.runtime n).state.validators.paid =
        run.start.state.validators.paid + ∑ k ∈ Finset.range n, run.emitted k) ↔ ∀ n call, run.calls[n]? = some call →
        PaysOnlySettled run.sha256 run.sphincs (run.runtime n) call := by
  constructor
  · intro all n
    refine (paid_succ_iff registered bounded n).mp ?_
    rw [all (n + 1), all n, Finset.sum_range_succ]
    omega
  · intro each n
    induction n with
    | zero => rfl
    | succ n ih =>
      rw [(paid_succ_iff registered bounded n).mpr (each n), ih, Finset.sum_range_succ]
      omega

end Payments

end EpochRun

/-- The settlement of epochs. In a settled epoch the supply changes by what is
emitted less what is burned exactly when no share of the validators in the fees
is minted. An epoch has one record for each validator, from the last entry
recorded for it; every entry is rewarded once exactly when each input has one
entry for each validator. The validators have what was emitted exactly when no
epoch fails after it rewarded them, as long as their rewards fit a word. -/
theorem epoch_settlement (sha256 : Bytes → Hash32) (sphincs : Sphincs) :
    (∀ (self after : BleepEconomicsRuntime) (now : U64) (input : EpochInput) (out : EpochOutput),
      processEpoch sha256 sphincs now input self = (.ok out, after) →
        (after.circulatingSupply.toNat + out.totalBurned.toNat =
            self.circulatingSupply.toNat + out.totalEmitted.toNat ↔
          feeMint sha256 self.state.tokenomics input.epoch out.totalEmitted (.compute input.feeRevenue) = 0) ∧
        out.rewardRecords = recordsOf sha256 self input) ∧
    ∀ (start : BleepEconomicsRuntime) (calls : List EpochCall),
      (∀ n call, calls[n]? = some call →
        prepared sha256 sphincs (runtimeAt sha256 sphincs start calls n) call.now call.input = true →
        ((recordsOf sha256 (runtimeAt sha256 sphincs start calls n) call.input).map RewardRecord.validatorId).Nodup ∧
        ∀ record, record ∈ recordsOf sha256 (runtimeAt sha256 sphincs start calls n) call.input ↔
          ∃ validatorId metrics, @Held sha256 sphincs start calls (n + 1) validatorId metrics ∧
            record = rewardRecord sha256 start.state.validators.rewardParams call.input.epoch validatorId metrics) ∧
      ((∀ n i metrics, Recorded sha256 sphincs start calls n i metrics →
          ∃! k, Rewarded sha256 sphincs start calls n i metrics k) ↔ ∀ n call, calls[n]? = some call →
          prepared sha256 sphincs (runtimeAt sha256 sphincs start calls n) call.now call.input = true →
          OnePerValidator sha256 sphincs start calls n call.input) ∧
      (MetricsRegistered start.state.validators →
        (∀ n call, calls[n]? = some call →
          prepared sha256 sphincs (runtimeAt sha256 sphincs start calls n) call.now call.input = true →
          (runtimeAt sha256 sphincs start calls n).state.validators.paid +
            due (recordsOf sha256 (runtimeAt sha256 sphincs start calls n) call.input) < 2 ^ 128) →
        ((∀ n, (runtimeAt sha256 sphincs start calls n).state.validators.paid =
            start.state.validators.paid + ∑ k ∈ Finset.range n, @emittedAt sha256 sphincs start calls k) ↔
          ∀ n call, calls[n]? = some call →
            PaysOnlySettled sha256 sphincs (runtimeAt sha256 sphincs start calls n) call)) := by
  refine ⟨fun self after now input out done => ?_, fun start calls => ?_⟩
  · obtain ⟨-, records, -, supply⟩ := ok_processEpoch done
    exact ⟨by omega, records⟩
  let run : EpochRun := ⟨sha256, sphincs, start, calls⟩
  refine ⟨fun n call here reaches => ?_, ⟨fun once n call here reaches => ?_, fun each n i metrics => ?_⟩,
    fun registered bounded => ?_⟩
  · have taken : run.Takes n call := ⟨here, reaches⟩
    refine ⟨?_, @EpochRun.mem_recordsOf run n call taken⟩
    rw [recordsOf, computeEpochRewards, List.map_map]
    exact scanFrom_keys_nodup _ _
  · exact @EpochRun.onePerValidator_of_once run once n call ⟨here, reaches⟩
  · exact @EpochRun.once_of_onePerValidator run (fun n call taken => each n call taken.1 taken.2) n i metrics
  · exact @EpochRun.paid_iff run registered fun n call taken => bounded n call taken.1 taken.2

/-- A supply of ten million coins and one validator. -/
def oneValidator : BleepEconomicsRuntime :=
  ((genesis lastBytes).withTokenomics
    ((CanonicalTokenomicsEngine.genesis lastBytes).initializeGenesisSupply lastBytes 1000000000000000).2).withValidators
    ((ValidatorIncentivesEngine.genesis.registerValidator [1] 1).toOption.getD .genesis)

def oneBlock : ValidatorMetrics := ⟨[1], 1, 0, 0, 0⟩

def manyBlocks : ValidatorMetrics := ⟨[1], 4294967295, 0, 0, 0⟩

/-- An epoch with fees, an epoch without metrics, and one whose rewards are over
what may be emitted. -/
def threeEpochs : List EpochCall :=
  [⟨0, ⟨1, 10, 4000, 5000, [oneBlock], []⟩⟩, ⟨0, ⟨2, 10, 0, 5000, [], []⟩⟩, ⟨0, ⟨3, 10, 0, 5000, [manyBlocks], []⟩⟩]

/-- The share of the fees is minted on top of what is reported, the metrics are
rewarded a second time, and the rewards of the third epoch stay although it
fails. -/
theorem settlement_unbalanced :
    ((processEpoch lastBytes sizedSphincs 0 ⟨1, 10, 4000, 5000, [oneBlock], []⟩ oneValidator).1.toOption.map fun out =>
        (out.totalEmitted, out.totalBurned)) = some (32000000, 1000) ∧
      oneValidator.circulatingSupply = 1000000000000000 ∧
      (runtimeAt lastBytes sizedSphincs oneValidator threeEpochs 1).circulatingSupply = 1000000032001000 ∧
      Rewarded lastBytes sizedSphincs oneValidator threeEpochs 0 0 oneBlock 0 ∧
      Rewarded lastBytes sizedSphincs oneValidator threeEpochs 0 0 oneBlock 1 ∧
      (runtimeAt lastBytes sizedSphincs oneValidator threeEpochs 3).state.validators.paid = 137438953504000000 ∧
      ∑ k ∈ Finset.range 3, @emittedAt lastBytes sizedSphincs oneValidator threeEpochs k = 64000000 := by
  have entry : Recorded lastBytes sizedSphincs oneValidator threeEpochs 0 0 oneBlock :=
    ⟨_, rfl, by decide +kernel, rfl, by decide +kernel⟩
  have newest (k : Nat) (early : k < 2) :
      Newest lastBytes sizedSphincs oneValidator threeEpochs 0 0 oneBlock (k + 1) := by
    refine ⟨entry, succ_pos k, fun n' i' metrics' entry' same before => ?_⟩
    obtain ⟨call, here, -, found, -⟩ := entry'
    rcases n' with _ | _ | n'
    · cases here
      exact .inr ⟨rfl, Nat.lt_succ_iff.mp (List.getElem?_eq_some_iff.mp found).1⟩
    · cases here
      cases found
    · omega
  refine ⟨by decide +kernel, by decide +kernel, by decide +kernel, ⟨⟨_, rfl, by decide +kernel⟩, newest 0 (by omega)⟩,
    ⟨⟨_, rfl, by decide +kernel⟩, newest 1 (by omega)⟩, by decide +kernel, by decide +kernel⟩

end Bleep.Economics
