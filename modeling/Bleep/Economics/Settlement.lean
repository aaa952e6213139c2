import Bleep.Economics.Runtime
import Bleep.Economics.SupplyLedger

namespace Bleep.Economics

open HashTable Words Results Leaves FeeDistribution Prod CanonicalTokenomicsEngine

namespace BleepEconomicsRuntime

variable {sha256 : Bytes → Hash32} {sphincs : Sphincs} {self after : BleepEconomicsRuntime}

/-- What the share of the validators in the fees adds to the supply: all of it
where its emission is accepted. -/
def feeMint (sha256 : Bytes → Hash32) (tokenomics : CanonicalTokenomicsEngine) (epoch : U64) (emitted : U128)
    (fees : FeeDistribution) : ℕ :=
  match emitRewards sha256 epoch emitted tokenomics >>= burnFees sha256 epoch fees with
  | .error _ => 0
  | .ok paid =>
    if 0 < fees.validatorReward ∧ (paid.recordEmission sha256 epoch .blockProposal fees.validatorReward).isOk then
      fees.validatorReward.toNat
    else 0

section Calls

variable {call : CanonicalTokenomicsEngine → Except (Failure TokenomicsError) CanonicalTokenomicsEngine}

theorem ok_updateTokenomics {u} (done : updateTokenomics call self = (.ok u, after)) :
    ∃ tokenomics, call self.state.tokenomics = .ok tokenomics ∧
      after = self.withTokenomics tokenomics := by
  unfold updateTokenomics at done
  split at done
  · cases done
  rename_i tokenomics ran
  exact ⟨tokenomics, ran, (Prod.mk.inj done).2.symm⟩

theorem ok_tryTokenomics {u} (done : tryTokenomics call self = (.ok u, after)) :
    ∃ tokenomics, after = self.withTokenomics tokenomics ∧
      (call self.state.tokenomics = .ok tokenomics ∨
        (call self.state.tokenomics).isOk = false ∧ tokenomics = self.state.tokenomics) := by
  obtain ⟨tokenomics, ran, rfl⟩ := ok_updateTokenomics done
  refine ⟨tokenomics, rfl, ?_⟩
  split at ran
  · rename_i failed
    rw [failed]
    cases ran
    exact .inr ⟨rfl, rfl⟩
  · exact .inl ran

end Calls

variable {input : EpochInput} {out : EpochOutput} {amount fee : U128} {epoch : U64}
  {next tokenomics : CanonicalTokenomicsEngine} {fees : FeeDistribution} {price : Option U128}
  {records : List RewardRecord}

theorem ok_settleEpoch (done : settleEpoch sha256 input fee price records self = (.ok out, after)) :
    ∃ emitted burned paid noted,
      emitRewards sha256 input.epoch (totalEmitted records) self.state.tokenomics = .ok emitted ∧
      burnFees sha256 input.epoch (.compute input.feeRevenue) emitted = .ok burned ∧
      (payValidators sha256 input.epoch (.compute input.feeRevenue) burned = .ok paid ∨
        (payValidators sha256 input.epoch (.compute input.feeRevenue) burned).isOk = false ∧ paid = burned) ∧
      (payTreasury sha256 input.epoch (.compute input.feeRevenue) paid = .ok noted ∨
        (payTreasury sha256 input.epoch (.compute input.feeRevenue) paid).isOk = false ∧ noted = paid) ∧
      after.state.tokenomics = (noted.finalizeEpoch sha256 input.epoch).2 ∧
      after.state.tokenomics.supplyState.verify = .ok () ∧
      out.totalEmitted = totalEmitted records ∧ out.totalBurned = (compute input.feeRevenue).burned ∧
      out.rewardRecords = records := by
  obtain ⟨_, first, emits, done⟩ := ok_of_stateful_bind done
  obtain ⟨_, second, burns, done⟩ := ok_of_stateful_bind done
  obtain ⟨_, third, pays, done⟩ := ok_of_stateful_bind done
  obtain ⟨_, fourth, notes, done⟩ := ok_of_stateful_bind done
  obtain ⟨hash, fifth, finalizes, done⟩ := ok_of_stateful_bind done
  obtain ⟨_, sixth, reads, done⟩ := ok_of_stateful_bind done
  obtain ⟨_, seventh, verifies, done⟩ := ok_of_stateful_bind done
  obtain ⟨_, eighth, writes, done⟩ := ok_of_stateful_bind done
  obtain ⟨emitted, emission, rfl⟩ := ok_updateTokenomics emits
  obtain ⟨burned, burning, rfl⟩ := ok_updateTokenomics burns
  obtain ⟨paid, rfl, payment⟩ := ok_tryTokenomics pays
  obtain ⟨noted, rfl, noting⟩ := ok_tryTokenomics notes
  refine ⟨emitted, burned, paid, noted, emission, burning, payment, noting, ?_⟩
  obtain rfl : _ = fifth := congrArg snd finalizes
  obtain rfl : _ = sixth := congrArg snd reads
  obtain rfl : _ = seventh := congrArg snd verifies
  obtain rfl : _ = eighth := congrArg snd writes
  obtain rfl : _ = after := congrArg snd done
  obtain rfl : _ = out := Except.ok.inj (congrArg fst done)
  have verified := ok_of_mapError (congrArg fst verifies)
  obtain ⟨_, passed, -⟩ := ok_of_bind verified
  exact ⟨rfl, ok_of_mapError passed, rfl, rfl, rfl⟩

theorem totals_recordEmission {emissionType : EmissionType}
    (done : tokenomics.recordEmission sha256 epoch emissionType amount = .ok next) :
    next.supplyState.circulatingSupply.toNat =
        min (tokenomics.supplyState.circulatingSupply.toNat + amount.toNat) (2 ^ 128 - 1) ∧
      next.supplyState.totalBurned = tokenomics.supplyState.totalBurned := by
  obtain ⟨_, _, -, -, -, -, rfl⟩ := ok_recordEmission done
  exact ⟨toNat_saturatingAdd .., rfl⟩

theorem totals_recordBurn {burnType : BurnType} (done : tokenomics.recordBurn sha256 epoch burnType amount = .ok next) :
    next.supplyState.circulatingSupply.toNat + amount.toNat = tokenomics.supplyState.circulatingSupply.toNat ∧
      next.supplyState.totalBurned.toNat =
        min (tokenomics.supplyState.totalBurned.toNat + amount.toNat) (2 ^ 128 - 1) := by
  obtain ⟨covered, rfl⟩ := ok_recordBurn done
  refine ⟨?_, toNat_saturatingAdd ..⟩
  change (saturatingSub _ _).toNat + _ = _
  rw [toNat_saturatingSub]
  omega

theorem zero_of_not_pos (zero : ¬ 0 < amount) : amount.toNat = 0 :=
  Nat.eq_zero_of_not_pos fun positive => zero (BitVec.lt_def.mpr positive)

theorem totals_emitRewards {emitted} (done : emitRewards sha256 epoch emitted tokenomics = .ok next) :
    next.supplyState.circulatingSupply.toNat =
        min (tokenomics.supplyState.circulatingSupply.toNat + emitted.toNat) (2 ^ 128 - 1) ∧
      next.supplyState.totalBurned = tokenomics.supplyState.totalBurned := by
  unfold emitRewards at done
  split at done
  · exact totals_recordEmission done
  rename_i zero
  cases done
  rw [zero_of_not_pos zero]
  exact ⟨by omega, rfl⟩

theorem totals_burnFees (done : burnFees sha256 epoch fees tokenomics = .ok next) :
    next.supplyState.circulatingSupply.toNat + fees.burned.toNat = tokenomics.supplyState.circulatingSupply.toNat ∧
      next.supplyState.totalBurned.toNat =
        min (tokenomics.supplyState.totalBurned.toNat + fees.burned.toNat) (2 ^ 128 - 1) := by
  unfold burnFees at done
  split at done
  · exact totals_recordBurn done
  rename_i zero
  cases done
  rw [zero_of_not_pos zero]
  exact ⟨rfl, by omega⟩

/-- The share of the validators is minted where its emission is accepted. -/
theorem totals_payValidators (done : payValidators sha256 epoch fees tokenomics = .ok next ∨
      (payValidators sha256 epoch fees tokenomics).isOk = false ∧ next = tokenomics) :
    next.supplyState.circulatingSupply.toNat = min (tokenomics.supplyState.circulatingSupply.toNat +
        if 0 < fees.validatorReward ∧
            (tokenomics.recordEmission sha256 epoch .blockProposal fees.validatorReward).isOk then
          fees.validatorReward.toNat else 0) (2 ^ 128 - 1) ∧
      next.supplyState.totalBurned = tokenomics.supplyState.totalBurned := by
  unfold payValidators at done
  by_cases positive : 0 < fees.validatorReward
  · rw [if_pos positive] at done
    rcases done with accepted | ⟨refused, rfl⟩
    · rw [if_pos ⟨positive, by rw [accepted]; rfl⟩]
      exact totals_recordEmission accepted
    · rw [if_neg (by rw [refused]; simp)]
      exact ⟨by omega, rfl⟩
  · rw [if_neg positive] at done
    rw [if_neg fun both => positive both.1]
    rcases done with same | ⟨failed, -⟩
    · cases same
      exact ⟨by omega, rfl⟩
    · cases failed

theorem totals_payTreasury (done : payTreasury sha256 epoch fees tokenomics = .ok next ∨
      (payTreasury sha256 epoch fees tokenomics).isOk = false ∧ next = tokenomics) :
    next.supplyState.circulatingSupply.toNat = tokenomics.supplyState.circulatingSupply.toNat ∧
      next.supplyState.totalBurned.toNat = tokenomics.supplyState.totalBurned.toNat := by
  rcases done with noted | ⟨-, rfl⟩
  · unfold payTreasury at noted
    split at noted
    · have bound := tokenomics.supplyState.totalBurned.isLt
      obtain ⟨circulating, burned⟩ := totals_recordBurn noted
      have nothing : (0 : U128).toNat = 0 := rfl
      exact ⟨circulating, by omega⟩
    · cases noted
      exact ⟨rfl, rfl⟩
  · exact ⟨rfl, rfl⟩

theorem totals_finalizeEpoch (tokenomics : CanonicalTokenomicsEngine) (epoch : U64) :
    (tokenomics.finalizeEpoch sha256 epoch).2.supplyState.circulatingSupply =
        tokenomics.supplyState.circulatingSupply ∧
      (tokenomics.finalizeEpoch sha256 epoch).2.supplyState.totalBurned = tokenomics.supplyState.totalBurned := by
  unfold CanonicalTokenomicsEngine.finalizeEpoch
  simp only
  split <;> exact ⟨rfl, rfl⟩

/-- The change of the supply in an epoch that is settled. Nothing saturates,
since the state is verified at the end. -/
theorem supply_settleEpoch (done : settleEpoch sha256 input fee price records self = (.ok out, after)) :
    after.circulatingSupply.toNat + out.totalBurned.toNat = self.circulatingSupply.toNat + out.totalEmitted.toNat +
      feeMint sha256 self.state.tokenomics input.epoch out.totalEmitted (.compute input.feeRevenue) := by
  obtain ⟨emitted, burned, paid, noted, emission, burning, payment, noting, settled, verified, emits, burns, -⟩ :=
    ok_settleEpoch done
  have minted : feeMint sha256 self.state.tokenomics input.epoch out.totalEmitted (.compute input.feeRevenue) =
      if 0 < (compute input.feeRevenue).validatorReward ∧ (burned.recordEmission sha256 input.epoch
          .blockProposal (compute input.feeRevenue).validatorReward).isOk then
        (compute input.feeRevenue).validatorReward.toNat else 0 := by
    have through : (emitRewards sha256 input.epoch (totalEmitted records) self.state.tokenomics >>=
        burnFees sha256 input.epoch (.compute input.feeRevenue)) = .ok burned := by
      rw [emission]
      exact burning
    rw [feeMint, emits, through]
  obtain ⟨circulating, unburned⟩ := totals_emitRewards emission
  obtain ⟨circulating', burned'⟩ := totals_burnFees burning
  obtain ⟨paidSupply, paidBurned⟩ := totals_payValidators payment
  obtain ⟨notedSupply, notedBurned⟩ := totals_payTreasury noting
  obtain ⟨finalSupply, finalBurned⟩ := @totals_finalizeEpoch sha256 noted input.epoch
  obtain ⟨capped, balanced⟩ := (SupplyState.verify_eq_ok_iff _).mp verified
  rw [toNat_maxSupply] at capped
  rw [← minted] at paidSupply
  rw [settled, finalSupply, finalBurned] at balanced
  rw [paidBurned] at notedBurned
  have supply : after.circulatingSupply.toNat = noted.supplyState.circulatingSupply.toNat := by
    rw [circulatingSupply, settled, finalSupply]
  have before : self.circulatingSupply = self.state.tokenomics.supplyState.circulatingSupply := rfl
  rw [supply, burns, emits, before]
  rw [settled] at capped
  rw [emits] at paidSupply
  omega

section Frames

/-- Past the base fee, the first part of an epoch writes the congestion and the
oracle bridge only. -/
theorem read_prepareEpoch {τ : Type} {read : BleepEconomicsRuntime → τ}
    (congestion : ∀ (self : BleepEconomicsRuntime) table,
      read (self.withFeeMarket { self.state.feeMarket with shardCongestion := table }) = read self)
    (oracle : ∀ (self : BleepEconomicsRuntime) oracleBridge, read (self.withOracleBridge oracleBridge) = read self)
    (updated : updateBaseFee input.epoch input.avgUtilisationBps self = (.ok fee, after)) (now : U64) :
    read (prepareEpoch sha256 sphincs now input self).2 = read after := by
  rw [prepareEpoch, bind_of_ok updated]
  refine bind (fun self => ?_) (fun _ => bind (forM fun update self => ?_) fun _ => bind (fun self => ?_)
    fun price => pure _) after
  · unfold recordShardCongestion
    split
    · rfl
    rename_i recorded
    obtain ⟨_, -, written⟩ := ok_of_bind recorded
    cases written
    exact congestion _ _
  · exact oracle _ _
  · unfold aggregatePrice
    split
    · rfl
    · rfl
    · exact oracle _ _

theorem updateBaseFee_cases (epoch : U64) (utilisation : U16) (self : BleepEconomicsRuntime) :
    (∃ e, self.state.feeMarket.updateBaseFee epoch utilisation = .error e ∧
      updateBaseFee epoch utilisation self = (.error (e.map .feeMarket), self)) ∨
    ∃ fee market, self.state.feeMarket.updateBaseFee epoch utilisation = .ok (fee, market) ∧
      updateBaseFee epoch utilisation self = (.ok fee, self.withFeeMarket market) := by
  unfold updateBaseFee
  cases self.state.feeMarket.updateBaseFee epoch utilisation with
  | error e => exact .inl ⟨e, rfl, rfl⟩
  | ok updated => exact .inr ⟨updated.1, updated.2, rfl, rfl⟩

/-- The first part of an epoch leaves alone what neither the fee market nor the
oracle bridge holds. -/
theorem leaves_prepareEpoch {τ : Type} {read : BleepEconomicsRuntime → τ}
    (fees : ∀ (self : BleepEconomicsRuntime) feeMarket, read (self.withFeeMarket feeMarket) = read self)
    (oracle : ∀ (self : BleepEconomicsRuntime) oracleBridge, read (self.withOracleBridge oracleBridge) = read self)
    (now : U64) (input : EpochInput) : Leaves read (prepareEpoch sha256 sphincs now input) := by
  intro self
  rcases updateBaseFee_cases input.epoch input.avgUtilisationBps self with ⟨e, -, failed⟩ | ⟨fee, market, -, updated⟩
  · rw [prepareEpoch, bind_of_error failed]
  · rw [read_prepareEpoch (fun _ _ => fees _ _) oracle updated now, fees]

theorem leaves_updateTokenomics {τ : Type} {read : BleepEconomicsRuntime → τ}
    (supply : ∀ (self : BleepEconomicsRuntime) tokenomics, read (self.withTokenomics tokenomics) = read self)
    (call : CanonicalTokenomicsEngine → Except (Failure TokenomicsError) CanonicalTokenomicsEngine) :
    Leaves read (updateTokenomics call) := by
  intro self
  unfold updateTokenomics
  split
  · rfl
  · exact supply _ _

/-- Where the last part of an epoch fails, only the supply can have changed. -/
theorem fails_settleEpoch {τ : Type} {read : BleepEconomicsRuntime → τ}
    (supply : ∀ (self : BleepEconomicsRuntime) tokenomics, read (self.withTokenomics tokenomics) = read self)
    (input : EpochInput) (fee : U128) (price : Option U128) (records : List RewardRecord) :
    FailsLeaving read (settleEpoch sha256 input fee price records) := by
  have updates := @leaves_updateTokenomics _ _ supply
  refine (updates _).bind_fails fun _ => (updates _).bind_fails fun _ => (updates _).bind_fails fun _ => ?_
  refine (updates _).bind_fails fun _ => bind_fails (fun _ => supply _ _) fun _ => bind_fails (fun _ => rfl) fun _ => ?_
  refine bind_fails (fun _ => rfl) fun _ s e after failed => ?_
  cases failed

end Frames

/-- The engine of the validators once the metrics of an epoch are recorded. -/
def recorded (self : BleepEconomicsRuntime) (input : EpochInput) : ValidatorIncentivesEngine :=
  input.validatorMetrics.foldl .noteMetrics self.state.validators

/-- The epoch gets as far as the metrics of the validators. -/
def prepared (sha256 : Bytes → Hash32) (sphincs : Sphincs) (self : BleepEconomicsRuntime) (now : U64)
    (input : EpochInput) : Bool := (prepareEpoch sha256 sphincs now input self).1.isOk

theorem validators_processEpoch (self : BleepEconomicsRuntime) (now : U64) (input : EpochInput) :
    (processEpoch sha256 sphincs now input self).2.state.validators =
      if prepared sha256 sphincs self now input then
        ((self.recorded input).computeEpochRewards sha256 input.epoch).2
      else self.state.validators := by
  have kept := @leaves_prepareEpoch sha256 sphincs _ (fun self => self.state.validators) (fun _ _ => rfl)
    (fun _ _ => rfl) now input self
  unfold prepared
  rcases ran : prepareEpoch sha256 sphincs now input self with ⟨e | ⟨fee, price⟩, mid⟩
  · rw [processEpoch, bind_of_error ran, if_neg (by simp [Except.isOk, Except.toBool])]
    rwa [ran] at kept
  · rw [ran] at kept
    have kept : mid.state.validators = self.state.validators := kept
    rw [processEpoch, bind_of_ok ran, if_pos (show (Except.ok (fee, price), mid).1.isOk = true from rfl)]
    have rewarded : rewardValidators sha256 input mid =
        (.ok ((self.recorded input).computeEpochRewards sha256 input.epoch).1,
          mid.withValidators ((self.recorded input).computeEpochRewards sha256 input.epoch).2) := by
      rw [recorded, ← kept]
      rfl
    change ((rewardValidators sha256 input >>= fun records => settleEpoch sha256 input fee price records) mid).2.state.validators
      = _
    rw [bind_of_ok rewarded]
    have updates := @leaves_updateTokenomics _ (fun self => self.state.validators) fun _ _ => rfl
    refine (updates _).bind (fun _ => (updates _).bind fun _ => (updates _).bind fun _ => (updates _).bind fun _ => ?_) _
    refine bind (fun _ => rfl) fun _ => bind (fun _ => rfl) fun _ => ?_
    exact bind (fun _ => rfl) fun _ => bind (fun _ => rfl) fun _ => pure _

theorem ok_processEpoch {now : U64} (done : processEpoch sha256 sphincs now input self = (.ok out, after)) :
    prepared sha256 sphincs self now input = true ∧
      out.rewardRecords = ((self.recorded input).computeEpochRewards sha256 input.epoch).1 ∧
      out.totalEmitted = totalEmitted out.rewardRecords ∧
      after.circulatingSupply.toNat + out.totalBurned.toNat = self.circulatingSupply.toNat + out.totalEmitted.toNat +
        feeMint sha256 self.state.tokenomics input.epoch out.totalEmitted (.compute input.feeRevenue) := by
  have validators := @leaves_prepareEpoch sha256 sphincs _ (fun self => self.state.validators) (fun _ _ => rfl)
    (fun _ _ => rfl) now input self
  have tokenomics := @leaves_prepareEpoch sha256 sphincs _ (fun self => self.state.tokenomics) (fun _ _ => rfl)
    (fun _ _ => rfl) now input self
  obtain ⟨⟨fee, price⟩, mid, ran, done⟩ := ok_of_stateful_bind done
  rw [ran] at validators tokenomics
  have validators : mid.state.validators = self.state.validators := validators
  have tokenomics : mid.state.tokenomics = self.state.tokenomics := tokenomics
  obtain ⟨records, last, rewarded, done⟩ := ok_of_stateful_bind done
  obtain rfl : _ = last := congrArg snd rewarded
  obtain rfl : _ = records := Except.ok.inj (congrArg fst rewarded)
  obtain ⟨_, _, _, _, -, -, -, -, -, -, emitted, -, rewards⟩ := ok_settleEpoch done
  have supply := supply_settleEpoch done
  refine ⟨by rw [prepared, ran]; rfl, ?_, ?_, ?_⟩
  · rw [rewards, recorded, ← validators]
    rfl
  · rw [emitted, rewards]
  · have before : self.circulatingSupply = (rewardValidators sha256 input mid).2.circulatingSupply := by
      rw [circulatingSupply, ← tokenomics]
      rfl
    rw [before, ← tokenomics]
    exact supply

end BleepEconomicsRuntime

end Bleep.Economics
