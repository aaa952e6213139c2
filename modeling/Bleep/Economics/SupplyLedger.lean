import Bleep.Economics.Tokenomics
import Bleep.Library.Ledger
import Bleep.Library.Runs

namespace Bleep.Economics

open HashTable Words Results Ledger SupplyState Nat BitVec

/-- What the records of a table add up to. -/
def recorded {K : Type} [DecidableEq K] (records : HashMap K U128) : ℕ :=
  ((pairs records).map fun entry => entry.2.toNat).sum

theorem recorded_insert {K : Type} [DecidableEq K] {records : HashMap K U128} {key} {amount : U128}
    (fits : recorded records + amount.toNat < 2 ^ 128) :
    recorded (records.insert key ((records.lookup key).getD 0 + amount)) = recorded records + amount.toNat := by
  have written := total_update (ofMap BitVec.toNat records) key ((records.lookup key).getD 0 + amount).toNat
  have held := le_total (ofMap BitVec.toNat records) key
  have old : ofMap BitVec.toNat records key = ((records.lookup key).getD 0).toNat := by
    rw [ofMap_apply]
    cases records.lookup key with
    | none => rfl
    | some value => rfl
  rw [old, total_ofMap] at held
  rw [← ofMap_insert, old, total_ofMap, total_ofMap] at written
  change recorded (records.insert key _) + _ = recorded records + _ at written
  change _ ≤ recorded records at held
  rw [BitVec.toNat_add_of_lt (by omega)] at written
  omega

namespace CanonicalTokenomicsEngine

variable {sha256 : Bytes → Hash32} {self after : CanonicalTokenomicsEngine}

/-- The identity of the supply and the records, given the genesis supply. -/
structure Identity (sha256 : Bytes → Hash32) (engine : CanonicalTokenomicsEngine) (genesis : ℕ) : Prop where
  covered : engine.supplyState.totalBurned.toNat ≤ engine.supplyState.totalMinted.toNat
  circulating : engine.supplyState.circulatingSupply.toNat =
    engine.supplyState.totalMinted.toNat - engine.supplyState.totalBurned.toNat
  capped : engine.supplyState.totalMinted.toNat ≤ maxSupply.toNat
  minted : engine.supplyState.totalMinted.toNat = genesis + recorded engine.emissionRecords
  burned : engine.supplyState.totalBurned.toNat = recorded engine.burnRecords
  hash : engine.supplyState.verifyHash sha256 = .ok ()

theorem verifyHash_rehash (state : SupplyState) : (state.rehash sha256).verifyHash sha256 = .ok () :=
  ensure_of rfl _

variable {amount : U128} {emissionType : EmissionType} {epoch : U64} {burnType : BurnType}

theorem ok_recordEmission (done : self.recordEmission sha256 epoch emissionType amount = .ok after) :
    ∃ rates rate, self.emissionSchedule.getEmissionRates epoch = .ok rates ∧ rates.lookup emissionType = some rate ∧
      amount.toNat ≤ self.baseSupply.toNat * rate.toNat / 10000 ∧
      amount.toNat ≤ maxSupply.toNat - self.supplyState.totalMinted.toNat ∧
      after = { self with
        emissionRecords := self.emissionRecords.insert (epoch, emissionType)
          ((self.emissionRecords.lookup (epoch, emissionType)).getD 0 + amount)
        supplyState := rehash sha256 { self.supplyState with
          totalMinted := saturatingAdd self.supplyState.totalMinted amount
          circulatingSupply := saturatingAdd self.supplyState.circulatingSupply amount } } := by
  obtain ⟨rates, given, rest⟩ := ok_of_bind done
  obtain ⟨rate, found, rest⟩ := ok_of_bind rest
  obtain ⟨_, within, rest⟩ := ok_of_bind rest
  obtain ⟨_, room, rest⟩ := ok_of_bind rest
  have within := le_def.mp (ok_of_ensure within)
  have room := le_def.mp (ok_of_ensure room)
  rw [toNat_saturatingSub] at room
  have wide : (rate.setWidth 128).toNat = rate.toNat := rfl
  rw [toNat_udiv, toNat_saturatingMul, wide] at within
  have product : amount.toNat ≤ self.baseSupply.toNat * rate.toNat / 10000 :=
    within.trans (Nat.div_le_div_right (Nat.min_le_left _ _))
  exact ⟨rates, rate, given, ok_of_okOr found, product, room, (Except.ok.inj rest).symm⟩

theorem ok_recordBurn (done : self.recordBurn sha256 epoch burnType amount = .ok after) :
    amount.toNat ≤ self.supplyState.circulatingSupply.toNat ∧
      after = { self with
        burnRecords := self.burnRecords.insert (epoch, burnType)
          ((self.burnRecords.lookup (epoch, burnType)).getD 0 + amount)
        supplyState := rehash sha256 { self.supplyState with
          totalBurned := saturatingAdd self.supplyState.totalBurned amount
          circulatingSupply := saturatingSub self.supplyState.circulatingSupply amount } } := by
  obtain ⟨_, -, rest⟩ := ok_of_bind done
  obtain ⟨_, covered, rest⟩ := ok_of_bind rest
  exact ⟨le_def.mp (ok_of_ensure covered), (Except.ok.inj rest).symm⟩

variable {genesis : ℕ}

section
variable (identity : self.Identity sha256 genesis)
include identity

theorem Identity.verify (epoch : U64) : verify { self.supplyState with epoch } = .ok () := by
  have covered := identity.covered
  have circulating := identity.circulating
  refine (verify_eq_ok_iff _).mpr ⟨identity.capped, ?_⟩
  change self.supplyState.circulatingSupply.toNat + self.supplyState.totalBurned.toNat =
    self.supplyState.totalMinted.toNat
  omega

theorem Identity.recordEmission (done : self.recordEmission sha256 epoch emissionType amount = .ok after)
    : after.Identity sha256 genesis := by
  obtain ⟨rates, rate, -, -, -, room, rfl⟩ := ok_recordEmission done
  obtain ⟨covered, circulating, capped, minted, burned, -⟩ := identity
  have sum := @recorded_insert _ _ self.emissionRecords (epoch, emissionType) amount (by omega)
  refine ⟨?_, ?_, ?_, ?_, burned, verifyHash_rehash _⟩
  · change _ ≤ (saturatingAdd _ _).toNat
    rw [toNat_saturatingAdd]
    change self.supplyState.totalBurned.toNat ≤ _
    omega
  · change (saturatingAdd _ _).toNat = (saturatingAdd _ _).toNat - self.supplyState.totalBurned.toNat
    rw [toNat_saturatingAdd, toNat_saturatingAdd]
    omega
  · change (saturatingAdd _ _).toNat ≤ _
    rw [toNat_saturatingAdd]
    omega
  · change (saturatingAdd _ _).toNat = genesis + recorded _
    rw [toNat_saturatingAdd, sum]
    omega

theorem Identity.recordBurn (done : self.recordBurn sha256 epoch burnType amount = .ok after)
    : after.Identity sha256 genesis := by
  obtain ⟨enough, rfl⟩ := ok_recordBurn done
  obtain ⟨covered, circulating, capped, minted, burned, -⟩ := identity
  have sum := @recorded_insert _ _ self.burnRecords (epoch, burnType) amount (by omega)
  refine ⟨?_, ?_, capped, minted, ?_, verifyHash_rehash _⟩
  · change (saturatingAdd _ _).toNat ≤ self.supplyState.totalMinted.toNat
    rw [toNat_saturatingAdd]
    omega
  · change (saturatingSub _ _).toNat = self.supplyState.totalMinted.toNat - (saturatingAdd _ _).toNat
    rw [toNat_saturatingSub, toNat_saturatingAdd]
    omega
  · change (saturatingAdd _ _).toNat = recorded _
    rw [toNat_saturatingAdd, sum]
    omega

/-- The supply can be set while nothing was minted, and so again after it was
set to 0. -/
theorem Identity.initializeGenesisSupply (initialSupply : U128) :
    (self.initializeGenesisSupply sha256 initialSupply).2.Identity sha256
      (if (self.initializeGenesisSupply sha256 initialSupply).1.isOk then initialSupply.toNat else genesis) := by
  unfold CanonicalTokenomicsEngine.initializeGenesisSupply
  split
  · exact identity
  rename_i unused
  push Not at unused
  split
  · exact identity
  rename_i within
  have within := BitVec.le_def.mp (BitVec.not_lt.mp within)
  have unminted : self.supplyState.totalMinted.toNat = 0 := by rw [unused.2.1]; rfl
  have unburned : self.supplyState.totalBurned.toNat = 0 := by rw [unused.2.2]; rfl
  have minted := identity.minted
  have passed : (self.supplyState.funded sha256 initialSupply).verify = .ok () := by
    refine (verify_eq_ok_iff _).mpr ⟨within, ?_⟩
    change initialSupply.toNat + self.supplyState.totalBurned.toNat = initialSupply.toNat
    rw [unburned, add_zero]
  rw [passed]
  refine ⟨?_, ?_, within, ?_, identity.burned, verifyHash_rehash _⟩
  · change self.supplyState.totalBurned.toNat ≤ _
    rw [unburned]
    exact zero_le _
  · change initialSupply.toNat = initialSupply.toNat - self.supplyState.totalBurned.toNat
    rw [unburned, Nat.sub_zero]
  · change initialSupply.toNat = initialSupply.toNat + recorded self.emissionRecords
    omega

theorem Identity.finalizeEpoch (epoch : U64) :
    (∃ hash, (self.finalizeEpoch sha256 epoch).1 = .ok hash) ∧
      (self.finalizeEpoch sha256 epoch).2.Identity sha256 genesis := by
  unfold CanonicalTokenomicsEngine.finalizeEpoch
  simp only [identity.verify epoch]
  refine ⟨⟨_, rfl⟩, ?_⟩
  obtain ⟨covered, circulating, capped, minted, burned, -⟩ := identity
  exact ⟨covered, circulating, capped, minted, burned, verifyHash_rehash _⟩

end

end CanonicalTokenomicsEngine

namespace TokenomicsCall

open CanonicalTokenomicsEngine

variable {sha256 : Bytes → Hash32} {self : CanonicalTokenomicsEngine} {genesis : ℕ}

/-- The genesis supply after a call: a successful initialization sets it. -/
def genesisAfter (sha256 : Bytes → Hash32) (self : CanonicalTokenomicsEngine) (genesis : ℕ) : TokenomicsCall → ℕ
  | initializeGenesisSupply initialSupply =>
    if (self.initializeGenesisSupply sha256 initialSupply).1.isOk then initialSupply.toNat else genesis
  | _ => genesis

theorem identity_apply (identity : self.Identity sha256 genesis) (call : TokenomicsCall) :
    (call.apply sha256 self).Identity sha256 (call.genesisAfter sha256 self genesis) := by
  cases call with
  | initializeGenesisSupply initialSupply => exact identity.initializeGenesisSupply initialSupply
  | recordEmission epoch emissionType amount =>
    refine @orUnchanged_keeps _ _ _ _ (fun engine => Identity sha256 engine genesis) _ _ identity fun after done => ?_
    exact identity.recordEmission done
  | recordBurn epoch burnType amount =>
    refine @orUnchanged_keeps _ _ _ _ (fun engine => Identity sha256 engine genesis) _ _ identity fun after done => ?_
    exact identity.recordBurn done
  | finalizeEpoch epoch => exact (identity.finalizeEpoch epoch).2

end TokenomicsCall

section Runs

variable (sha256 : Bytes → Hash32) (schedule : EmissionSchedule) (calls : List TokenomicsCall)

/-- The genesis supply before the `n`-th call. -/
def genesisSupplyAt : Nat → ℕ
  | 0 => 0
  | n + 1 => calls[n]?.elim (genesisSupplyAt n) fun call =>
    call.genesisAfter sha256 (engineAt sha256 schedule calls n) (genesisSupplyAt n)

/-- The identity of the supply holds at all times, the hash of the state is the
one it commits to, and no epoch fails to be finalized. -/
theorem supply_ledger_identity (n : Nat) :
    (engineAt sha256 schedule calls n).Identity sha256 (genesisSupplyAt sha256 schedule calls n) ∧
      ∀ epoch, ∃ hash, ((engineAt sha256 schedule calls n).finalizeEpoch sha256 epoch).1 = .ok hash := by
  have identity : (engineAt sha256 schedule calls n).Identity sha256 (genesisSupplyAt sha256 schedule calls n) := by
    induction n with
    | zero => exact ⟨le_refl _, rfl, zero_le _, rfl, rfl, CanonicalTokenomicsEngine.verifyHash_rehash _⟩
    | succ n ih =>
      rw [genesisSupplyAt]
      cases here : calls[n]? with
      | none =>
        rw [engineAt, Runs.foldl_take_stop here]
        exact ih
      | some call =>
        rw [engineAt, Runs.foldl_take_succ here]
        exact TokenomicsCall.identity_apply ih call
  exact ⟨identity, fun epoch => (identity.finalizeEpoch epoch).1⟩

end Runs

end Bleep.Economics
