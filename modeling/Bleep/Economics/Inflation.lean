import Bleep.Economics.SupplyLedger
import Mathlib.Algebra.Order.BigOperators.Group.List

namespace Bleep.Economics

open HashTable Words Results EmissionSchedule BitVec

/-- What the rates add up to. -/
def totalRate (rates : HashMap EmissionType U16) : ℕ := ((pairs rates).map fun entry => entry.2.toNat).sum

variable {rate : U16}

namespace EmissionSchedule

variable {schedule : EmissionSchedule} {epoch later : U64}

/-- No product and no power wraps at an epoch. -/
def ExactAt (schedule : EmissionSchedule) (epoch : U64) : Prop :=
  epoch < schedule.minEpochForDecay ∨ ∀ emissionType rate, schedule.emissionRates.lookup emissionType = some rate →
    10000 ^ (schedule.decayEpochs epoch).toNat < 2 ^ 64 ∧
      schedule.decayFactorBps.toNat ^ (schedule.decayEpochs epoch).toNat < 2 ^ 64 ∧
      rate.toNat * schedule.decayFactorBps.toNat ^ (schedule.decayEpochs epoch).toNat < 2 ^ 64

/-- At the epochs below a bound the rates are computed exactly, fall with the
epoch and stay within the maximum. -/
structure Decays (schedule : EmissionSchedule) (bound : ℕ) : Prop where
  exact : ∀ epoch, epoch.toNat < bound → schedule.ExactAt epoch
  returns : ∀ epoch, epoch.toNat < bound → ∃ rates, schedule.getEmissionRates epoch = .ok rates
  falling : ∀ epoch later rates fallen emissionType rate decayed, epoch ≤ later → later.toNat < bound →
    schedule.getEmissionRates epoch = .ok rates → schedule.getEmissionRates later = .ok fallen →
    rates.lookup emissionType = some rate → fallen.lookup emissionType = some decayed → decayed.toNat ≤ rate.toNat
  bounded : ∀ epoch rates, epoch.toNat < bound → schedule.getEmissionRates epoch = .ok rates →
    totalRate rates ≤ maxInflationRateBps.toNat

theorem decay_of_validate (valid : schedule.validate = .ok ()) :
    schedule.decayFactorBps.toNat ≤ 10000 := by
  obtain ⟨_, -, passed⟩ := ok_of_bind valid
  exact le_def.mp (ok_of_ensure passed).2

theorem getEmissionRates_of_lt (early : epoch < schedule.minEpochForDecay) :
    schedule.getEmissionRates epoch = .ok schedule.emissionRates := if_pos early

theorem totalRate_mapValues (change : U16 → U16) (rates : HashMap EmissionType U16) :
    totalRate (mapValues (fun _ rate => change rate) rates) =
      ((pairs rates).map fun entry => (change entry.2).toNat).sum := by
  rw [totalRate, ← Ledger.total_ofMap, ← @Ledger.total_ofMap _ _ _ fun rate => (change rate).toNat]
  congr 1
  apply Finsupp.ext
  intro emissionType
  rw [Ledger.ofMap_apply, lookup_mapValues, Option.map_map, Ledger.ofMap_apply]
  rfl

theorem toNat_decayEpochs (late : ¬ epoch < schedule.minEpochForDecay) :
    (schedule.decayEpochs epoch).toNat = (epoch.toNat - schedule.minEpochForDecay.toNat) % 2 ^ 32 := by
  rw [decayEpochs, BitVec.toNat_setWidth, BitVec.toNat_sub_of_le (BitVec.not_lt.mp late)]

theorem divisor_ne_zero {n} (powers : 10000 ^ n < 2 ^ 64) : wrappingPow (10000 : U64) n ≠ 0 := by
  intro zero
  have value := @toNat_wrappingPow_of_lt 64 (10000 : U64) n powers
  rw [zero] at value
  exact absurd value.symm (Nat.pos_iff_ne_zero.mp (Nat.pow_pos (by decide)))

theorem toNat_decayed {epochs rate} (factor : schedule.decayFactorBps.toNat ≤ 10000)
    (powers : 10000 ^ epochs.toNat < 2 ^ 64)
    (fits : rate.toNat * schedule.decayFactorBps.toNat ^ epochs.toNat < 2 ^ 64) :
    (schedule.decayed epochs rate).toNat =
      rate.toNat * schedule.decayFactorBps.toNat ^ epochs.toNat / 10000 ^ epochs.toNat := by
  have wideFactor : (schedule.decayFactorBps.setWidth 64).toNat = schedule.decayFactorBps.toNat := rfl
  have wideRate : (rate.setWidth 64).toNat = rate.toNat := rfl
  have powered : (wrappingPow (schedule.decayFactorBps.setWidth 64) epochs.toNat).toNat =
      schedule.decayFactorBps.toNat ^ epochs.toNat := by
    rw [toNat_wrappingPow_of_lt, wideFactor]
    exact (Nat.pow_le_pow_left factor _).trans_lt powers
  have divisor : (wrappingPow (10000 : U64) epochs.toNat).toNat = 10000 ^ epochs.toNat :=
    toNat_wrappingPow_of_lt powers
  have quotient : rate.toNat * schedule.decayFactorBps.toNat ^ epochs.toNat / 10000 ^ epochs.toNat ≤ rate.toNat :=
    Nat.div_le_of_le_mul (by rw [Nat.mul_comm]; exact Nat.mul_le_mul_right _ (Nat.pow_le_pow_left factor _))
  rw [decayed, toNat_setWidth, toNat_udiv, toNat_mul, wideRate, powered, divisor,
    Nat.mod_eq_of_lt fits, Nat.mod_eq_of_lt (quotient.trans_lt rate.isLt)]

theorem decay_antitone {factor} (bounded : factor ≤ 10000) (rate : ℕ) {m n} (le : m ≤ n) :
    rate * factor ^ n / 10000 ^ n ≤ rate * factor ^ m / 10000 ^ m := by
  obtain ⟨k, rfl⟩ := Nat.exists_eq_add_of_le le
  calc rate * factor ^ (m + k) / 10000 ^ (m + k)
      = rate * factor ^ m * factor ^ k / (10000 ^ m * 10000 ^ k) := by rw [pow_add, pow_add, Nat.mul_assoc]
    _ ≤ rate * factor ^ m * 10000 ^ k / (10000 ^ m * 10000 ^ k) :=
      Nat.div_le_div_right (Nat.mul_le_mul_left _ (Nat.pow_le_pow_left bounded k))
    _ = rate * factor ^ m / 10000 ^ m := Nat.mul_div_mul_right _ _ (Nat.pow_pos (by decide))

section Range

variable (factor : schedule.decayFactorBps.toNat ≤ 10000) (total : totalRate schedule.emissionRates ≤ 500)
  (few : schedule.emissionRates = ∅ ∨ epoch.toNat < schedule.minEpochForDecay.toNat + 5)
include few

variable {emissionType : EmissionType} {rates : HashMap EmissionType U16}

theorem decayEpochs_of_few (late : ¬ epoch < schedule.minEpochForDecay)
    (found : schedule.emissionRates.lookup emissionType = some rate) :
    (schedule.decayEpochs epoch).toNat = epoch.toNat - schedule.minEpochForDecay.toNat ∧
      10000 ^ (schedule.decayEpochs epoch).toNat ≤ 10000 ^ 4 := by
  rcases few with empty | near
  · rw [empty] at found
    cases found
  · have number := toNat_decayEpochs late
    rw [Nat.mod_eq_of_lt (by omega)] at number
    exact ⟨number, Nat.pow_le_pow_right (by decide) (by omega)⟩

theorem getEmissionRates_of_few (late : ¬ epoch < schedule.minEpochForDecay) : schedule.getEmissionRates epoch =
    .ok (mapValues (fun _ rate => schedule.decayed (schedule.decayEpochs epoch) rate) schedule.emissionRates) := by
  rw [getEmissionRates, if_neg late]
  refine if_neg ?_
  rintro ⟨some, zero⟩
  obtain ⟨entry, member⟩ := List.exists_mem_of_ne_nil _ some
  have base := (decayEpochs_of_few few late (mem_pairs.mp member)).2
  exact divisor_ne_zero (base.trans_lt (by decide)) zero

include factor total

theorem exactAt_of_few : schedule.ExactAt epoch := by
  by_cases early : epoch < schedule.minEpochForDecay
  · exact .inl early
  refine .inr fun emissionType rate found => ?_
  have base := (decayEpochs_of_few few early found).2
  have power := (Nat.pow_le_pow_left factor (schedule.decayEpochs epoch).toNat).trans base
  have least : rate.toNat ≤ totalRate schedule.emissionRates :=
    List.le_sum_of_mem (List.mem_map.mpr ⟨(emissionType, rate), mem_pairs.mpr found, rfl⟩)
  have product := Nat.mul_le_mul (least.trans total) power
  exact ⟨base.trans_lt (by decide), power.trans_lt (by decide), product.trans_lt (by decide)⟩

theorem toNat_decayed_of_few (late : ¬ epoch < schedule.minEpochForDecay)
    (found : schedule.emissionRates.lookup emissionType = some rate) :
    (schedule.decayed (schedule.decayEpochs epoch) rate).toNat =
      rate.toNat * schedule.decayFactorBps.toNat ^ (epoch.toNat - schedule.minEpochForDecay.toNat) /
        10000 ^ (epoch.toNat - schedule.minEpochForDecay.toNat) := by
  rcases exactAt_of_few factor total few with early | exact_
  · exact absurd early late
  obtain ⟨powers, -, fits⟩ := exact_ emissionType rate found
  rw [toNat_decayed factor powers fits, (decayEpochs_of_few few late found).1]

variable (given : schedule.getEmissionRates epoch = .ok rates)
include given

theorem rate_of_few {decayed} (found : rates.lookup emissionType = some decayed) :
    ∃ rate, schedule.emissionRates.lookup emissionType = some rate ∧ decayed.toNat =
      rate.toNat * schedule.decayFactorBps.toNat ^ (epoch.toNat - schedule.minEpochForDecay.toNat) /
        10000 ^ (epoch.toNat - schedule.minEpochForDecay.toNat) := by
  by_cases early : epoch < schedule.minEpochForDecay
  · cases (getEmissionRates_of_lt early).symm.trans given
    have none : epoch.toNat - schedule.minEpochForDecay.toNat = 0 := Nat.sub_eq_zero_of_le (lt_def.mp early).le
    refine ⟨decayed, found, ?_⟩
    rw [none, pow_zero, pow_zero, Nat.mul_one, Nat.div_one]
  · cases (getEmissionRates_of_few few early).symm.trans given
    rw [lookup_mapValues] at found
    obtain ⟨rate, there, rfl⟩ := Option.map_eq_some_iff.mp found
    exact ⟨rate, there, toNat_decayed_of_few factor total few early there⟩

theorem totalRate_of_few : totalRate rates ≤ 500 := by
  by_cases early : epoch < schedule.minEpochForDecay
  · cases (getEmissionRates_of_lt early).symm.trans given
    exact total
  · cases (getEmissionRates_of_few few early).symm.trans given
    rw [totalRate_mapValues]
    refine (List.sum_le_sum fun entry member => ?_).trans total
    rw [toNat_decayed_of_few factor total few early (mem_pairs.mp member)]
    refine (decay_antitone factor _ (Nat.zero_le _)).trans ?_
    rw [pow_zero, pow_zero, Nat.mul_one, Nat.div_one]

end Range

variable {bound : ℕ}

theorem decays_of_few (factor : schedule.decayFactorBps.toNat ≤ 10000) (total : totalRate schedule.emissionRates ≤ 500)
    (few : schedule.emissionRates = ∅ ∨ bound ≤ schedule.minEpochForDecay.toNat + 5) : schedule.Decays bound := by
  have near {epoch : U64} (inside : epoch.toNat < bound) :
      schedule.emissionRates = ∅ ∨ epoch.toNat < schedule.minEpochForDecay.toNat + 5 :=
    few.imp_right inside.trans_le
  refine ⟨fun epoch inside => exactAt_of_few factor total (near inside), fun epoch inside => ?_, ?_,
    fun epoch rates inside given => totalRate_of_few factor total (near inside) given⟩
  · by_cases early : epoch < schedule.minEpochForDecay
    · exact ⟨_, getEmissionRates_of_lt early⟩
    · exact ⟨_, getEmissionRates_of_few (near inside) early⟩
  · intro epoch later rates fallen emissionType rate decayed le inside given givenLater found foundLater
    obtain ⟨start, there, value⟩ := rate_of_few factor total (near (le.trans_lt inside)) given found
    obtain ⟨start', there', value'⟩ := rate_of_few factor total (near inside) givenLater foundLater
    cases there.symm.trans there'
    rw [value, value']
    exact decay_antitone factor start.toNat (Nat.sub_le_sub_right le _)

theorem totalRate_le_of_decays (factor : schedule.decayFactorBps.toNat ≤ 10000) (positive : 0 < bound)
    (decays : schedule.Decays bound) : totalRate schedule.emissionRates ≤ 500 := by
  by_cases early : 0 < schedule.minEpochForDecay
  · exact decays.bounded 0 schedule.emissionRates positive (getEmissionRates_of_lt early)
  have start : schedule.minEpochForDecay = 0 :=
    BitVec.eq_of_toNat_eq (Nat.eq_zero_of_le_zero (BitVec.le_def.mp (BitVec.not_lt.mp early)))
  have none : schedule.decayEpochs 0 = 0 := by
    rw [decayEpochs, start]
    rfl
  have same (rate : U16) : (schedule.decayed 0 rate).toNat = rate.toNat := by
    have value := @toNat_decayed schedule 0 rate factor (by decide) (by change _ * 1 < _; omega)
    rw [value]
    change rate.toNat * 1 / 1 = rate.toNat
    rw [Nat.mul_one, Nat.div_one]
  have given : schedule.getEmissionRates 0 =
      .ok (mapValues (fun _ rate => schedule.decayed 0 rate) schedule.emissionRates) := by
    rw [getEmissionRates, if_neg early, none]
    exact if_neg fun both => divisor_ne_zero (by decide) both.2
  have bounded := decays.bounded 0 _ positive given
  rw [totalRate_mapValues, List.map_congr_left fun entry _ => same entry.2] at bounded
  exact bounded

theorem not_exactAt_five {emissionType : EmissionType} {rate}
    (found : schedule.emissionRates.lookup emissionType = some rate)
    (room : schedule.minEpochForDecay.toNat + 5 < 2 ^ 64) : ¬ schedule.ExactAt (schedule.minEpochForDecay + 5) := by
  have sum : (schedule.minEpochForDecay + 5).toNat = schedule.minEpochForDecay.toNat + 5 :=
    toNat_add_of_lt room
  have late : ¬ schedule.minEpochForDecay + 5 < schedule.minEpochForDecay := by
    rw [lt_def, sum]
    exact Nat.not_lt.mpr (Nat.le_add_right _ _)
  have five := toNat_decayEpochs late
  rw [sum, Nat.add_sub_cancel_left] at five
  rintro (early | exact_)
  · exact late early
  · have power := (exact_ emissionType rate found).1
    rw [five] at power
    exact absurd power (by decide)

theorem decays_iff (valid : schedule.validate = .ok ()) (positive : 0 < bound) (range : bound ≤ 2 ^ 64) :
    schedule.Decays bound ↔ totalRate schedule.emissionRates ≤ 500 ∧
      (schedule.emissionRates = ∅ ∨ bound ≤ schedule.minEpochForDecay.toNat + 5) := by
  have factor := decay_of_validate valid
  constructor
  · intro decays
    refine ⟨totalRate_le_of_decays factor positive decays, ?_⟩
    by_contra both
    obtain ⟨filled, above⟩ := not_or.mp both
    obtain ⟨emissionType, rate, found⟩ : ∃ emissionType rate,
        schedule.emissionRates.lookup emissionType = some rate := by
      by_contra none
      push Not at none
      exact filled (AList.ext_iff.mpr (List.eq_nil_iff_forall_not_mem.mpr fun entry member =>
        none entry.1 entry.2 (AList.mem_lookup_iff.mpr member)))
    refine not_exactAt_five found (by omega) (decays.exact _ ?_)
    rw [toNat_add_of_lt (by change _ + 5 < _; omega)]
    change _ + 5 < _
    omega
  · rintro ⟨total, few⟩
    exact decays_of_few factor total few

end EmissionSchedule

section Emissions

open CanonicalTokenomicsEngine

variable {sha256 : Bytes → Hash32} {schedule : EmissionSchedule} {self : CanonicalTokenomicsEngine}

theorem TokenomicsCall.emissionSchedule_apply (self : CanonicalTokenomicsEngine) (call : TokenomicsCall) :
    (call.apply sha256 self).emissionSchedule = self.emissionSchedule := by
  unfold apply execute
  cases call with
  | initializeGenesisSupply initialSupply =>
    unfold CanonicalTokenomicsEngine.initializeGenesisSupply
    simp only
    split
    · rfl
    · split <;> rfl
  | recordEmission epoch emissionType amount =>
    rcases orUnchanged_cases (fun self _ => self.recordEmission sha256 epoch emissionType amount) self () with
      ⟨_, -, same⟩ | ⟨after, done, same⟩
    · simp only [same]
    · obtain ⟨_, _, -, -, -, -, rfl⟩ := ok_recordEmission done
      simp only [same]
  | recordBurn epoch burnType amount =>
    rcases orUnchanged_cases (fun self _ => self.recordBurn sha256 epoch burnType amount) self () with
      ⟨_, -, same⟩ | ⟨after, done, same⟩
    · simp only [same]
    · obtain ⟨-, rfl⟩ := ok_recordBurn done
      simp only [same]
  | finalizeEpoch epoch =>
    unfold CanonicalTokenomicsEngine.finalizeEpoch
    simp only
    split <;> rfl

def CanonicalTokenomicsEngine.emitted (self : CanonicalTokenomicsEngine) (epoch : U64) (emissionType : EmissionType) :
    ℕ := ((self.emissionRecords.lookup (epoch, emissionType)).getD 0).toNat

/-- A successful emission of this epoch and type. -/
def TokenomicsCall.emits (sha256 : Bytes → Hash32) (self : CanonicalTokenomicsEngine) (epoch : U64)
    (emissionType : EmissionType) : TokenomicsCall → Bool
  | recordEmission epoch' emissionType' amount => decide (epoch' = epoch ∧ emissionType' = emissionType) &&
      (self.recordEmission sha256 epoch' emissionType' amount).isOk
  | _ => false

theorem TokenomicsCall.emitted_apply {epoch} {emissionType : EmissionType} {rates : HashMap EmissionType U16}
    (given : self.emissionSchedule.getEmissionRates epoch = .ok rates) (found : rates.lookup emissionType = some rate)
    (call : TokenomicsCall) :
    (call.apply sha256 self).emitted epoch emissionType ≤ self.emitted epoch emissionType +
      if call.emits sha256 self epoch emissionType then self.baseSupply.toNat * rate.toNat / 10000 else 0 := by
  unfold apply execute
  cases call with
  | initializeGenesisSupply initialSupply =>
    unfold CanonicalTokenomicsEngine.initializeGenesisSupply
    simp only
    split
    · exact Nat.le_add_right _ _
    · split <;> exact Nat.le_add_right _ _
  | recordEmission epoch' emissionType' amount =>
    rcases orUnchanged_cases (fun self _ => self.recordEmission sha256 epoch' emissionType' amount) self () with
      ⟨_, -, same⟩ | ⟨after, done, same⟩
    · simp only [same]
      exact Nat.le_add_right _ _
    · simp only [same]
      obtain ⟨rates', rate', given', found', within, room, written⟩ := ok_recordEmission done
      by_cases here : (epoch', emissionType') = (epoch, emissionType)
      · cases here
        cases given.symm.trans given'
        cases found.symm.trans found'
        have emitting : (recordEmission epoch emissionType amount).emits sha256 self epoch emissionType = true := by
          simp [emits, done, Except.isOk, Except.toBool]
        rw [emitting, if_pos rfl, written]
        have sum : ((self.emissionRecords.lookup (epoch, emissionType)).getD 0 + amount).toNat ≤
            ((self.emissionRecords.lookup (epoch, emissionType)).getD 0).toNat + amount.toNat := by
          exact Nat.mod_le _ _
        simp only [emitted, AList.lookup_insert, Option.getD_some]
        omega
      · rw [written]
        simp only [emitted, AList.lookup_insert_ne (Ne.symm here)]
        exact Nat.le_add_right _ _
  | recordBurn epoch' burnType amount =>
    rcases orUnchanged_cases (fun self _ => self.recordBurn sha256 epoch' burnType amount) self () with
      ⟨_, -, same⟩ | ⟨after, done, same⟩
    · simp only [same]
      exact Nat.le_add_right _ _
    · obtain ⟨-, rfl⟩ := ok_recordBurn done
      simp only [same]
      exact Nat.le_add_right _ _
  | finalizeEpoch epoch' =>
    unfold CanonicalTokenomicsEngine.finalizeEpoch
    simp only
    split <;> exact Nat.le_add_right _ _

variable (sha256) (schedule) (calls : List TokenomicsCall)

/-- The number of successful emissions of an epoch and type before the `n`-th
call. -/
def emissionsBefore (epoch : U64) (emissionType : EmissionType) : Nat → ℕ
  | 0 => 0
  | n + 1 => emissionsBefore epoch emissionType n + calls[n]?.elim 0 fun call =>
    if call.emits sha256 (engineAt sha256 schedule calls n) epoch emissionType then 1 else 0

theorem emissionSchedule_engineAt (n : Nat) : (engineAt sha256 schedule calls n).emissionSchedule = schedule :=
  @Runs.foldl_take_mono _ _ _ _ calls (fun engine => engine.emissionSchedule = schedule)
    (fun engine call same => (TokenomicsCall.emissionSchedule_apply engine call).trans same) 0 n (Nat.zero_le n) rfl

/-- For a valid schedule the rates below an epoch are computed exactly, fall and
are bounded exactly when their true sum is within the maximum and that epoch is
at most the fifth of the decay. And each successful emission of an epoch and
type adds at most the rate of the largest supply seen. -/
theorem inflation_bounds {schedule : EmissionSchedule} (valid : schedule.validate = .ok ()) :
    (∀ bound, 0 < bound → bound ≤ 2 ^ 64 → (schedule.Decays bound ↔ totalRate schedule.emissionRates ≤ 500 ∧
      (schedule.emissionRates = ∅ ∨ bound ≤ schedule.minEpochForDecay.toNat + 5))) ∧
    ∀ (calls : List TokenomicsCall) n epoch emissionType rates rate largest,
      schedule.getEmissionRates epoch = .ok rates → rates.lookup emissionType = some rate →
      (∀ k < n, ∀ call : TokenomicsCall, calls[k]? = some call →
        call.emits sha256 (engineAt sha256 schedule calls k) epoch emissionType = true →
        (engineAt sha256 schedule calls k).baseSupply.toNat ≤ largest) →
      (engineAt sha256 schedule calls n).emitted epoch emissionType ≤
        emissionsBefore sha256 schedule calls epoch emissionType n * (largest * rate.toNat / 10000) := by
  refine ⟨fun _ => decays_iff valid, ?_⟩
  intro calls n epoch emissionType rates rate largest given found seen
  induction n with
  | zero => exact Nat.zero_le _
  | succ n ih =>
    have before := ih fun k less => seen k (less.trans (Nat.lt_succ_self n))
    rw [emissionsBefore, Nat.add_mul]
    cases here : calls[n]? with
    | none =>
      rw [engineAt, Runs.foldl_take_stop here]
      exact before.trans (Nat.le_add_right _ _)
    | some call =>
      rw [engineAt, Runs.foldl_take_succ here]
      have given' : (engineAt sha256 schedule calls n).emissionSchedule.getEmissionRates epoch = .ok rates := by
        rwa [emissionSchedule_engineAt]
      refine (TokenomicsCall.emitted_apply given' found call).trans (Nat.add_le_add before ?_)
      rw [Option.elim_some]
      split
      · rename_i emits
        rw [Nat.one_mul]
        exact Nat.div_le_div_right (Nat.mul_le_mul_right _ (seen n (Nat.lt_succ_self n) call here emits))
      · exact Nat.zero_le _

theorem default_decays : new.validate = .ok () ∧ new.Decays 52565 := by
  have valid : new.validate = .ok () := rfl
  refine ⟨valid, ((inflation_bounds lastBytes valid).1 52565 (by decide) (by decide)).mpr ⟨?_, .inr ?_⟩⟩
  · decide
  · decide

end Emissions

/-- Two rates whose sum is 0 in 16 bits. -/
def wideSchedule : EmissionSchedule where
  emissionRates := insertAll ∅ [(.blockProposal, 65535), (.participation, 1)]
  decayFactorBps := 10000
  minEpochForDecay := 1

/-- The whole allowance of an epoch, twice. -/
def doubleEmission : List TokenomicsCall :=
  [.initializeGenesisSupply 1000000, .recordEmission 0 .blockProposal 20000, .recordEmission 0 .blockProposal 20000]

/-- The default rates rise again after they wrap, and the computation panics in
the sixteenth epoch of the decay; a schedule of more than 655 percent is valid;
and two emissions of one epoch exceed its allowance. -/
theorem inflation_unbounded :
    (new.validate = .ok () ∧ ¬ new.ExactAt 52565 ∧
      ((new.getEmissionRates 52565).toOption.bind fun rates => rates.lookup .blockProposal) = some 0 ∧
      ((new.getEmissionRates 52571).toOption.bind fun rates => rates.lookup .blockProposal) =
        some 154 ∧
      new.getEmissionRates 52576 = .error (.panic "attempt to divide by zero")) ∧
    (wideSchedule.validate = .ok () ∧ totalRate wideSchedule.emissionRates = 65536) ∧
    (engineAt lastBytes .new doubleEmission 3).emitted 0 .blockProposal = 40000 ∧
      (engineAt lastBytes .new doubleEmission 3).supplyState.circulatingSupply.toNat * 200 / 10000 = 20800 := by
  refine ⟨⟨rfl, ?_, ?_, ?_, ?_⟩, ⟨rfl, rfl⟩, ?_, ?_⟩
  · exact @not_exactAt_five .new .blockProposal 200 rfl (by decide)
  · decide
  · decide
  · rfl
  · decide
  · decide

end Bleep.Economics
