import Bleep.Bytes
import Bleep.Library.HashTable
import Bleep.Library.Results

namespace Bleep.Economics

open HashTable Words Results

def minBaseFee : U128 := 1000

def maxBaseFee : U128 := 10000000000

inductive FeeMarketError
  | invalidCongestion (message : String)
  | baseFeeTooLow
  | baseFeeTooHigh
  | invalidBaseFeeParams

def FeeMarketError.display : FeeMarketError → String
  | invalidCongestion message => s!"Invalid congestion metric: {message}"
  | baseFeeTooLow => "Base fee too low"
  | baseFeeTooHigh => "Base fee too high"
  | invalidBaseFeeParams => "Invalid base fee parameters"

structure ShardCongestion where
  shardId : U32
  utilizationBps : U16
  pendingTxns : U32
  avgTxSizeBytes : U32

def ShardCongestion.validate (congestion : ShardCongestion) : Except FeeMarketError Unit :=
  ensure (congestion.utilizationBps ≤ 10000) (.invalidCongestion "utilization_bps cannot exceed 10000")

structure BaseFeeParams where
  currentBaseFee : U128 := minBaseFee
  maxIncreaseBps : U16 := 1250
  maxDecreaseBps : U16 := 1000
  targetUtilizationBps : U16 := 5000

def BaseFeeParams.validate (params : BaseFeeParams) : Except FeeMarketError Unit := do
  ensure (minBaseFee ≤ params.currentBaseFee) .baseFeeTooLow
  ensure (params.currentBaseFee ≤ maxBaseFee) .baseFeeTooHigh
  ensure (params.targetUtilizationBps ≤ 10000) .invalidBaseFeeParams

structure FeeMarket where
  baseFeeParams : BaseFeeParams
  shardCongestion : HashMap U32 ShardCongestion
  feeHistory : HashMap U64 U128

namespace FeeMarket

def genesis : FeeMarket := ⟨{}, ∅, ∅⟩

/-- The fee is moved towards the target in 64 bits. A target of 0 divides by
zero. -/
def movedFee (params : BaseFeeParams) (averageUtilizationBps : U16) : Except (Failure FeeMarketError) U128 :=
  let current : U64 := params.currentBaseFee.setWidth 64
  let target : U64 := params.targetUtilizationBps.setWidth 64
  let actual : U64 := averageUtilizationBps.setWidth 64
  if target = 0 then .error (.panic "attempt to divide by zero")
  else if target < actual then
    let most : U64 := params.maxIncreaseBps.setWidth 64
    let increaseBps := minimum (most * (actual - target) / target) most
    .ok ((current * (10000 + increaseBps) / 10000).setWidth 128)
  else
    let most : U64 := params.maxDecreaseBps.setWidth 64
    let decreaseBps := minimum (most * (target - actual) / target) most
    .ok ((current * (10000 - decreaseBps) / 10000).setWidth 128)

def updateBaseFee (self : FeeMarket) (epoch : U64) (averageUtilizationBps : U16) :
    Except (Failure FeeMarketError) (U128 × FeeMarket) := do
  ensure (averageUtilizationBps ≤ 10000) (.error (.invalidCongestion "utilization cannot exceed 10000"))
  let newFee ← movedFee self.baseFeeParams averageUtilizationBps
  let boundedFee := minimum (maximum newFee minBaseFee) maxBaseFee
  return (boundedFee, { self with
    baseFeeParams := { self.baseFeeParams with currentBaseFee := boundedFee }
    feeHistory := self.feeHistory.insert epoch boundedFee })

section Controller

variable {self : FeeMarket} {current utilisation : Nat}

/-- What the fee is multiplied with, in parts of 10000. -/
def feeFactor (utilisation : Nat) : Nat :=
  if 5000 < utilisation then 10000 + min (1250 * (utilisation - 5000) / 5000) 1250
  else 10000 - min (1000 * (5000 - utilisation) / 5000) 1000

/-- The next fee in unbounded arithmetic. -/
def exactFee (fee utilisation : Nat) : Nat :=
  min (max (fee * feeFactor utilisation / 10000) minBaseFee.toNat) maxBaseFee.toNat

def fee (self : FeeMarket) : Nat := self.baseFeeParams.currentBaseFee.toNat

/-- The parameters of genesis, with any fee between the limits. -/
structure Steady (market : FeeMarket) : Prop where
  params : market.baseFeeParams = { currentBaseFee := market.baseFeeParams.currentBaseFee }
  lower : minBaseFee.toNat ≤ market.fee
  upper : market.fee ≤ maxBaseFee.toNat

/-- A refused call changes nothing. -/
def afterUpdate (self : FeeMarket) (call : U64 × U16) : FeeMarket :=
  match self.updateBaseFee call.1 call.2 with
  | .error _ => self
  | .ok (_, next) => next

theorem feeFactor_mono {more} (le : utilisation ≤ more) : feeFactor utilisation ≤ feeFactor more := by
  unfold feeFactor
  split <;> split <;> omega

theorem feeFactor_bounds (utilisation : Nat) : 9000 ≤ feeFactor utilisation ∧ feeFactor utilisation ≤ 11250 := by
  unfold feeFactor
  split <;> omega

theorem exactFee_mono {higher more} (fees : current ≤ higher) (le : utilisation ≤ more) :
    exactFee current utilisation ≤ exactFee higher more := by
  have scaled := Nat.div_le_div_right (c := 10000) (Nat.mul_le_mul fees (feeFactor_mono le))
  unfold exactFee
  omega

/-- From a fee above the lower limit the clamp only takes away from a rise. -/
theorem exactFee_bounds (lower : minBaseFee.toNat ≤ current) (upper : current ≤ maxBaseFee.toNat) (utilisation : Nat) :
    8 * exactFee current utilisation ≤ 9 * current ∧ 9 * current < 10 * (exactFee current utilisation + 1) := by
  obtain ⟨least, most⟩ := feeFactor_bounds utilisation
  have low := Nat.mul_le_mul_left current least
  have high := Nat.mul_le_mul_left current most
  unfold exactFee
  omega

theorem exactFee_target (lower : minBaseFee.toNat ≤ current) (upper : current ≤ maxBaseFee.toNat) : exactFee current 5000 = current := by
  have factor : feeFactor 5000 = 10000 := rfl
  rw [exactFee, factor, Nat.mul_div_cancel current (by decide)]
  omega

/-- With the parameters of genesis no product leaves 64 bits. -/
theorem movedFee_exact {fee} (upper : fee.toNat ≤ maxBaseFee.toNat) {utilisation}
    (valid : utilisation ≤ 10000) : ∃ moved, movedFee { currentBaseFee := fee } utilisation = .ok moved ∧
      moved.toNat = fee.toNat * feeFactor utilisation.toNat / 10000 := by
  have limit : fee.toNat ≤ 10000000000 := upper
  have most : utilisation.toNat ≤ 10000 := valid
  obtain ⟨-, factor⟩ := feeFactor_bounds utilisation.toNat
  have product := Nat.mul_le_mul limit factor
  have moved : ∀ bps : U64, bps.toNat = feeFactor utilisation.toNat →
      ((fee.setWidth 64 * bps / 10000).setWidth 128 : U128).toNat =
        fee.toNat * feeFactor utilisation.toNat / 10000 := by
    intro bps same
    have parts : (10000 : U64).toNat = 10000 := rfl
    simp only [BitVec.toNat_setWidth, BitVec.toNat_udiv, BitVec.toNat_mul, same, parts, Nat.mod_mul_mod]
    omega
  rw [movedFee]
  simp only
  rw [if_neg (by decide)]
  split
  · rename_i above
    refine ⟨_, rfl, moved (10000 + minimum (1250 * (utilisation.setWidth 64 - 5000) / 5000) 1250) ?_⟩
    simp [BitVec.lt_def] at above
    have excess : (utilisation.setWidth 64 - 5000 : U64).toNat = utilisation.toNat - 5000 := by
      simp
      omega
    rw [feeFactor, if_pos (by omega), BitVec.toNat_add, toNat_minimum, BitVec.toNat_udiv, BitVec.toNat_mul, excess]
    simp (disch := omega) only [BitVec.reduceToNat, Nat.mod_eq_of_lt]
  · rename_i below
    refine ⟨_, rfl, moved (10000 - minimum (1000 * (5000 - utilisation.setWidth 64) / 5000) 1000) ?_⟩
    simp [BitVec.lt_def] at below
    have deficit : (5000 - utilisation.setWidth 64 : U64).toNat = 5000 - utilisation.toNat := by
      simp
      omega
    rw [feeFactor, if_neg (by omega), BitVec.toNat_sub, toNat_minimum, BitVec.toNat_udiv, BitVec.toNat_mul, deficit]
    simp (disch := omega) only [BitVec.reduceToNat, Nat.mod_eq_of_lt]
    omega

theorem Steady.updateBaseFee (steady : self.Steady) (epoch : U64) {utilisation} (valid : utilisation ≤ 10000) :
    ∃ next, self.updateBaseFee epoch utilisation = .ok (next.baseFeeParams.currentBaseFee, next) ∧ next.Steady ∧
      next.fee = exactFee self.fee utilisation.toNat := by
  obtain ⟨moved, computed, value⟩ := movedFee_exact steady.upper valid
  rw [← steady.params] at computed
  let fee := minimum (maximum moved minBaseFee) maxBaseFee
  let next : FeeMarket := { self with
    baseFeeParams := { self.baseFeeParams with currentBaseFee := fee }, feeHistory := self.feeHistory.insert epoch fee }
  have exact : next.fee = exactFee self.fee utilisation.toNat := by
    change (minimum (maximum moved minBaseFee) maxBaseFee).toNat = _
    rw [toNat_minimum, toNat_maximum, value]
    rfl
  have limits : minBaseFee.toNat ≤ maxBaseFee.toNat := by decide
  refine ⟨next, ?_, ⟨?_, ?_, ?_⟩, exact⟩
  · rw [FeeMarket.updateBaseFee, ensure_of valid, computed]
    rfl
  · exact congrArg (fun params : BaseFeeParams => { params with currentBaseFee := fee }) steady.params
  · rw [exact, exactFee]
    omega
  · rw [exact, exactFee]
    omega

theorem Steady.afterUpdate (steady : self.Steady) (call : U64 × U16) : (self.afterUpdate call).Steady := by
  unfold FeeMarket.afterUpdate
  by_cases valid : call.2 ≤ 10000
  · obtain ⟨next, updated, kept, -⟩ := steady.updateBaseFee call.1 valid
    rw [updated]
    exact kept
  · rw [FeeMarket.updateBaseFee, ensure, if_neg valid]
    exact steady

/-- In every run from genesis the fee stays between the limits. An update in
range gives the exact next fee, which is at most an eighth above the fee and,
up to one unit, at most a tenth below it; at the target it is the fee. It does
not fall when the fee or the utilisation rises. -/
theorem base_fee_controlled (calls : List (U64 × U16)) :
    (calls.foldl FeeMarket.afterUpdate genesis).Steady ∧
    (∀ market : FeeMarket, market.Steady → ∀ (epoch : U64) (utilisation : U16), utilisation ≤ 10000 →
      ∃ next, market.updateBaseFee epoch utilisation = .ok (next.baseFeeParams.currentBaseFee, next) ∧ next.Steady ∧
        next.fee = exactFee market.fee utilisation.toNat ∧
        8 * next.fee ≤ 9 * market.fee ∧ 9 * market.fee < 10 * (next.fee + 1) ∧
        (utilisation = 5000 → next.fee = market.fee)) ∧
    ∀ fee higher utilisation more, fee ≤ higher → utilisation ≤ more → exactFee fee utilisation ≤ exactFee higher more := by
  refine ⟨?_, fun market steady epoch utilisation valid => ?_, fun _ _ _ _ => exactFee_mono⟩
  · have start : genesis.Steady := ⟨rfl, by decide, by decide⟩
    generalize genesis = market at start ⊢
    induction calls generalizing market with
    | nil => exact start
    | cons call calls ih => exact ih (market.afterUpdate call) (start.afterUpdate call)
  · obtain ⟨next, updated, kept, exact⟩ := steady.updateBaseFee epoch valid
    obtain ⟨rise, fall⟩ := exactFee_bounds steady.lower steady.upper utilisation.toNat
    rw [← exact] at rise fall
    refine ⟨next, updated, kept, exact, rise, fall, ?_⟩
    rintro rfl
    exact exact.trans (exactFee_target steady.lower steady.upper)

end Controller

def recordShardCongestion (self : FeeMarket) (congestion : ShardCongestion) : Except FeeMarketError FeeMarket := do
  congestion.validate
  return { self with shardCongestion := self.shardCongestion.insert congestion.shardId congestion }

end FeeMarket

end Bleep.Economics
