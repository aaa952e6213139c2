import Bleep.Crypto
import Bleep.Library.HashTable
import Bleep.Library.Results

namespace Bleep.Economics

open HashTable Words Results BitVec

def bleepUnit : U128 := 100000000

def maxSupply : U128 := 200000000 * bleepUnit

def genesisSupply : U128 := 0

def maxInflationRateBps : U16 := 500

def minSlashingAmount : U128 := 1000000

theorem toNat_maxSupply : maxSupply.toNat = 20000000000000000 := rfl

inductive EmissionType
  | blockProposal
  | participation
  | healingParticipation
  | crossShardCoordination
  deriving DecidableEq

inductive BurnType
  | transactionFee
  | slashingPenalty
  | proposalRejection
  | spamPenalty
  deriving DecidableEq

inductive TokenomicsError
  | invalidSupplyState (message : String)
  | hashMismatch (message : String)
  | invalidEmissionSchedule (message : String)
  | excessiveEmission (message : String)
  | supplyCapExceeded
  | burnTooSmall
  | invalidEmissionType
  deriving DecidableEq

structure SupplyState where
  circulatingSupply : U128
  totalMinted : U128
  totalBurned : U128
  epoch : U64
  stateHash : Bytes

namespace SupplyState

def verify (state : SupplyState) : Except TokenomicsError Unit := do
  ensure (state.totalBurned ≤ state.totalMinted)
    (.invalidSupplyState "total_minted < total_burned — accounting corruption detected")
  ensure (state.totalMinted ≤ maxSupply)
    (.invalidSupplyState s!"total_minted {state.totalMinted.toNat} exceeds hard cap MAX_SUPPLY {maxSupply.toNat} — {(state.totalMinted - maxSupply).toNat} excess tokens were created and must not exist")
  let expectedCirculation := saturatingSub state.totalMinted state.totalBurned
  ensure (state.circulatingSupply = expectedCirculation)
    (.invalidSupplyState s!"circulating_supply {state.circulatingSupply.toNat} != total_minted({state.totalMinted.toNat}) - total_burned({state.totalBurned.toNat}) = {expectedCirculation.toNat} — supply state is internally inconsistent")
  ensure (state.circulatingSupply ≤ maxSupply)
    (.invalidSupplyState s!"circulating_supply {state.circulatingSupply.toNat} exceeds MAX_SUPPLY {maxSupply.toNat}")

variable (sha256 : Bytes → Hash32)

variable (state : SupplyState)

def computeHash : Bytes :=
  (sha256 (leBytes 16 state.circulatingSupply.toNat ++ leBytes 16 state.totalMinted.toNat
    ++ leBytes 16 state.totalBurned.toNat ++ le64 state.epoch)).toList

def verifyHash : Except TokenomicsError Unit :=
  ensure (state.computeHash sha256 = state.stateHash) (.hashMismatch "SupplyState hash does not match commitment")

def rehash : SupplyState :=
  { state with stateHash := state.computeHash sha256 }

def funded (initialSupply : U128) : SupplyState :=
  rehash sha256 { state with circulatingSupply := initialSupply, totalMinted := initialSupply }

theorem verify_eq_ok_iff : state.verify = .ok () ↔
    state.totalMinted.toNat ≤ maxSupply.toNat ∧
      state.circulatingSupply.toNat + state.totalBurned.toNat = state.totalMinted.toNat := by
  constructor
  · intro passed
    obtain ⟨_, covered, rest⟩ := ok_of_bind passed
    obtain ⟨_, capped, rest⟩ := ok_of_bind rest
    obtain ⟨_, circulating, -⟩ := ok_of_bind rest
    have covered := le_def.mp (ok_of_ensure covered)
    have circulating := congrArg BitVec.toNat (ok_of_ensure circulating)
    rw [toNat_saturatingSub] at circulating
    exact ⟨le_def.mp (ok_of_ensure capped), by omega⟩
  · rintro ⟨capped, balanced⟩
    have covered : state.totalBurned ≤ state.totalMinted := le_def.mpr (by omega)
    have circulating : state.circulatingSupply = saturatingSub state.totalMinted state.totalBurned := by
      apply eq_of_toNat_eq
      rw [toNat_saturatingSub]
      omega
    have bounded : state.circulatingSupply ≤ maxSupply := le_def.mpr (by omega)
    rw [verify, ensure_of covered, ensure_of (le_def.mpr capped)]
    change (ensure (state.circulatingSupply = saturatingSub state.totalMinted state.totalBurned) _ >>= fun _ => _) = _
    rw [ensure_of circulating, ensure_of bounded]
    rfl

end SupplyState

structure EmissionSchedule where
  emissionRates : HashMap EmissionType U16
  decayFactorBps : U16
  minEpochForDecay : U64

namespace EmissionSchedule

def new : EmissionSchedule where
  emissionRates := insertAll ∅ [(.blockProposal, 200), (.participation, 150), (.healingParticipation, 100),
    (.crossShardCoordination, 50)]
  decayFactorBps := 9900
  minEpochForDecay := 52560

variable (schedule : EmissionSchedule)

/-- The sum of the rates is narrowed to 16 bits before it is compared. -/
def validate : Except TokenomicsError Unit := do
  let totalEmission : U32 := ((pairs schedule.emissionRates).map fun entry => entry.2.setWidth 32).foldl (· + ·) 0
  ensure (totalEmission.setWidth 16 ≤ maxInflationRateBps)
    (.invalidEmissionSchedule s!"Total emission {totalEmission.toNat} BPS exceeds max {maxInflationRateBps.toNat}")
  ensure (schedule.decayFactorBps ≠ 0 ∧ schedule.decayFactorBps ≤ 10000)
    (.invalidEmissionSchedule "decay_factor_bps must be between 0 and 10000")

/-- The number of epochs is narrowed to 32 bits for the powers. -/
def decayEpochs (currentEpoch : U64) : U32 :=
  (currentEpoch - schedule.minEpochForDecay).setWidth 32

/-- The product and the powers wrap. -/
def decayed (epochs : U32) (rate : U16) : U16 :=
  (rate.setWidth 64 * wrappingPow (schedule.decayFactorBps.setWidth 64) epochs.toNat
    / wrappingPow (10000 : U64) epochs.toNat).setWidth 16

/-- The divisor is the same for all rates; where it wraps to 0, the loop stops
at its first rate. -/
def getEmissionRates (currentEpoch : U64) :
    Except (Failure TokenomicsError) (HashMap EmissionType U16) :=
  if currentEpoch < schedule.minEpochForDecay then .ok schedule.emissionRates
  else
    let epochs := schedule.decayEpochs currentEpoch
    if pairs schedule.emissionRates ≠ [] ∧ wrappingPow (10000 : U64) epochs.toNat = 0 then
      .error (.panic "attempt to divide by zero")
    else .ok (mapValues (fun _ rate => schedule.decayed epochs rate) schedule.emissionRates)

end EmissionSchedule

structure CanonicalTokenomicsEngine where
  supplyState : SupplyState
  emissionSchedule : EmissionSchedule
  historicalStates : HashMap U64 SupplyState
  emissionRecords : HashMap (U64 × EmissionType) U128
  burnRecords : HashMap (U64 × BurnType) U128

namespace CanonicalTokenomicsEngine

variable (sha256 : Bytes → Hash32)

def withSchedule (emissionSchedule : EmissionSchedule) : CanonicalTokenomicsEngine where
  supplyState := SupplyState.rehash sha256 ⟨genesisSupply, genesisSupply, 0, 0, []⟩
  emissionSchedule
  historicalStates := ∅
  emissionRecords := ∅
  burnRecords := ∅

def genesis : CanonicalTokenomicsEngine := withSchedule sha256 .new

variable (self : CanonicalTokenomicsEngine)

def initializeGenesisSupply (initialSupply : U128) :
    Except (Failure TokenomicsError) Unit × CanonicalTokenomicsEngine :=
  if self.supplyState.epoch ≠ 0 ∨ self.supplyState.totalMinted ≠ genesisSupply ∨ self.supplyState.totalBurned ≠ 0 then
    (.error (.error (.invalidSupplyState "genesis supply can only be initialized before any mint or burn")), self)
  else if maxSupply < initialSupply then (.error (.error .supplyCapExceeded), self)
  else
    ((self.supplyState.funded sha256 initialSupply).verify.mapError .error,
      { self with supplyState := self.supplyState.funded sha256 initialSupply })

/-- The base of the percentages is the maximum while nothing circulates. -/
def baseSupply : U128 :=
  if self.supplyState.circulatingSupply = 0 then maxSupply else self.supplyState.circulatingSupply

def recordEmission (epoch : U64) (emissionType : EmissionType) (amount : U128) :
    Except (Failure TokenomicsError) CanonicalTokenomicsEngine := do
  let rates ← self.emissionSchedule.getEmissionRates epoch
  let rate ← okOr (rates.lookup emissionType) (.error .invalidEmissionType)
  let maxAllowed := saturatingMul self.baseSupply (rate.setWidth 128) / 10000
  ensure (amount ≤ maxAllowed)
    (.error (.excessiveEmission s!"emission {amount.toNat} exceeds allowed {maxAllowed.toNat} for this epoch"))
  ensure (amount ≤ saturatingSub maxSupply self.supplyState.totalMinted) (.error .supplyCapExceeded)
  let current := (self.emissionRecords.lookup (epoch, emissionType)).getD 0
  return { self with
    emissionRecords := self.emissionRecords.insert (epoch, emissionType) (current + amount)
    supplyState := SupplyState.rehash sha256 { self.supplyState with
      totalMinted := saturatingAdd self.supplyState.totalMinted amount
      circulatingSupply := saturatingAdd self.supplyState.circulatingSupply amount } }

def recordBurn (epoch : U64) (burnType : BurnType) (amount : U128) :
    Except (Failure TokenomicsError) CanonicalTokenomicsEngine := do
  ensure (¬ (amount < minSlashingAmount ∧ burnType = .slashingPenalty)) (.error .burnTooSmall)
  ensure (amount ≤ self.supplyState.circulatingSupply)
    (.error (.invalidSupplyState "burn amount exceeds circulating supply"))
  let current := (self.burnRecords.lookup (epoch, burnType)).getD 0
  return { self with
    burnRecords := self.burnRecords.insert (epoch, burnType) (current + amount)
    supplyState := SupplyState.rehash sha256 { self.supplyState with
      totalBurned := saturatingAdd self.supplyState.totalBurned amount
      circulatingSupply := saturatingSub self.supplyState.circulatingSupply amount } }

/-- The epoch is written before the state is verified. -/
def finalizeEpoch (epoch : U64) :
    Except (Failure TokenomicsError) Bytes × CanonicalTokenomicsEngine :=
  let state := { self.supplyState with epoch }
  match state.verify with
  | .error e => (.error (.error e), { self with supplyState := state })
  | .ok () =>
    let state := state.rehash sha256
    (.ok state.stateHash, { self with
      supplyState := state
      historicalStates := self.historicalStates.insert epoch state })

end CanonicalTokenomicsEngine

inductive TokenomicsCall
  | initializeGenesisSupply (initialSupply : U128)
  | recordEmission (epoch : U64) (emissionType : EmissionType) (amount : U128)
  | recordBurn (epoch : U64) (burnType : BurnType) (amount : U128)
  | finalizeEpoch (epoch : U64)

namespace TokenomicsCall

/-- The result of a call and the engine after it. -/
def execute (sha256 : Bytes → Hash32) (self : CanonicalTokenomicsEngine) :
    TokenomicsCall → Except (Failure TokenomicsError) Unit × CanonicalTokenomicsEngine
  | initializeGenesisSupply initialSupply => self.initializeGenesisSupply sha256 initialSupply
  | recordEmission epoch emissionType amount =>
    orUnchanged (fun self _ => self.recordEmission sha256 epoch emissionType amount) self ()
  | recordBurn epoch burnType amount =>
    orUnchanged (fun self _ => self.recordBurn sha256 epoch burnType amount) self ()
  | finalizeEpoch epoch =>
    ((self.finalizeEpoch sha256 epoch).1.map fun _ => (), (self.finalizeEpoch sha256 epoch).2)

def apply (sha256 : Bytes → Hash32) (self : CanonicalTokenomicsEngine) (call : TokenomicsCall) :
    CanonicalTokenomicsEngine := (call.execute sha256 self).2

end TokenomicsCall

/-- The engine before the `n`-th call. -/
def engineAt (sha256 : Bytes → Hash32) (schedule : EmissionSchedule) (calls : List TokenomicsCall) (n : Nat) :
    CanonicalTokenomicsEngine :=
  (calls.take n).foldl (TokenomicsCall.apply sha256) (.withSchedule sha256 schedule)

end Bleep.Economics
