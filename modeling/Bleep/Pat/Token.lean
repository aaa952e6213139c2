import Bleep.Crypto
import Bleep.Library.Ledger

namespace Bleep.Pat

open HashTable Words BitVec

abbrev Address := Hash32

inductive PATError
  | tokenNotFound (symbol : String)
  | tokenAlreadyExists (symbol : String)
  | insufficientBalance («have» need : U128)
  | supplyCapExceeded (cap wouldReach : U128)
  | balanceOverflow (address : String)
  | unauthorized (caller : String)
  | insufficientAllowance (approved need : U128)
  | zeroAmount
  | selfTransfer
  | invalidBurnRate (bps : U16)
  | symbolTooLong (symbol : String)
  | nameTooLong (name : String)
  | invalidDecimals (decimals : BitVec 8)
  | memoTooLong (length : Nat)
  | frozen (symbol : String)
  | notFreezable (symbol : String)
  | outOfGas (limit used : U64)
  | duplicateIntent
  deriving DecidableEq

/-- `u128::to_be_bytes`. -/
def be128 (n : U128) : Bytes := (leBytes 16 n.toNat).reverse

def be16 (n : U16) : Bytes := (leBytes 2 n.toNat).reverse

structure PATToken where
  symbol : String
  name : String
  decimals : BitVec 8
  owner : Address
  totalSupplyCap : U128
  freezable : Bool
  createdAt : U64
  currentSupply : U128
  totalBurned : U128
  burnRateBps : U16
  frozen : Bool
  stateHash : Hash32

namespace PATToken

def recomputeHash (sha256 : Bytes → Hash32) (token : PATToken) : PATToken :=
  { token with stateHash := sha256 (utf8 token.symbol ++ be128 token.currentSupply ++ be128 token.totalBurned ++
      be16 token.burnRateBps ++ [if token.frozen then 1 else 0]) }

/-- The checks that the engine and the token both make on a new token. -/
def validate (symbol name : String) (decimals : BitVec 8) (burnRateBps : U16) : Except PATError Unit :=
  if 16 < symbol.utf8ByteSize then .error (.symbolTooLong symbol)
  else if 64 < name.utf8ByteSize then .error (.nameTooLong name)
  else if 18 < decimals then .error (.invalidDecimals decimals)
  else if 1000 < burnRateBps then .error (.invalidBurnRate burnRateBps)
  else .ok ()

def new (sha256 : Bytes → Hash32) (symbol name : String) (decimals : BitVec 8) (owner : Address)
    (totalSupplyCap : U128) (burnRateBps : U16) (freezable : Bool) (createdAt : U64) : Except PATError PATToken := do
  validate symbol name decimals burnRateBps
  return recomputeHash sha256
    ⟨symbol, name, decimals, owner, totalSupplyCap, freezable, createdAt, 0, 0, burnRateBps, false,
      Vector.replicate 32 0⟩

variable (token : PATToken)

/-- The product wraps. -/
def transferBurnAmount (amount : U128) : U128 :=
  if token.burnRateBps = 0 then 0 else amount * token.burnRateBps.setWidth 128 / 10000

theorem toNat_transferBurnAmount (amount : U128) :
    (token.transferBurnAmount amount).toNat = amount.toNat * token.burnRateBps.toNat % 2 ^ 128 / 10000 := by
  unfold transferBurnAmount
  split
  · rename_i zero
    simp [zero]
  · rfl

/-- What is burned is far below the range of `i128`. -/
theorem transferBurnAmount_lt (amount : U128) :
    (token.transferBurnAmount amount).toNat < 2 ^ 115 := by
  rw [toNat_transferBurnAmount]
  omega

/-- At a rate of at most ten percent no more is burned than is sent. -/
theorem transferBurnAmount_le {token : PATToken} (rate : token.burnRateBps.toNat ≤ 1000) (amount : U128) :
    (token.transferBurnAmount amount).toNat ≤ amount.toNat := by
  rw [toNat_transferBurnAmount]
  have product := Nat.mul_le_mul_left amount.toNat rate
  omega

end PATToken

structure TokenLedger where
  balances : HashMap String U128

namespace TokenLedger

def key (address : Address) : String := Hex.encode address.toList

def empty : TokenLedger := ⟨∅⟩

variable (ledger : TokenLedger)

variable (address : Address)

def balanceOf : U128 := (ledger.balances.lookup (key address)).getD 0

/-- The entry is made before the sum is checked; a fresh entry holds nothing,
so its sum cannot overflow. -/
def credit (amount : U128) : Except PATError (U128 × TokenLedger) :=
  match checkedAdd (ledger.balanceOf address) amount with
  | none => .error (.balanceOverflow (key address))
  | some balance => .ok (balance, ⟨ledger.balances.insert (key address) balance⟩)

def debit (amount : U128) : Except PATError (U128 × TokenLedger) :=
  let balance := ledger.balanceOf address
  if balance < amount then .error (.insufficientBalance balance amount)
  else
    let newBalance := balance - amount
    .ok (newBalance, ⟨if newBalance = 0 then ledger.balances.erase (key address)
      else ledger.balances.insert (key address) newBalance⟩)

theorem key_injective : Function.Injective key := by
  intro a b same
  exact Vector.toList_inj.mp (Hex.encode_injective same)

/-- What the keys of the ledger hold. -/
noncomputable def held : String →₀ ℕ := Ledger.ofMap BitVec.toNat ledger.balances

theorem held_key :
    ledger.held (key address) = (ledger.balanceOf address).toNat := by
  rw [held, Ledger.ofMap_apply, balanceOf]
  cases ledger.balances.lookup (key address) with
  | none => rfl
  | some balance => rfl

variable {ledger after : TokenLedger} {address : Address} {amount balance : U128}

theorem held_credit (done : ledger.credit address amount = .ok (balance, after)) :
    after.held = ledger.held.update (key address) ((ledger.balanceOf address).toNat + amount.toNat) := by
  unfold credit at done
  split at done
  · cases done
  rename_i sum added
  cases done
  rw [held, Ledger.ofMap_insert, ← checkedAdd_eq_some.mp added]
  rfl

theorem credit_of_lt (fits : (ledger.balanceOf address).toNat + amount.toNat < 2 ^ 128) :
    ∃ balance after, ledger.credit address amount = .ok (balance, after) := by
  rw [credit, checkedAdd_of_lt fits]
  exact ⟨_, _, rfl⟩

theorem credit_of_not (overflow : ¬ (ledger.balanceOf address).toNat + amount.toNat < 2 ^ 128) :
    ledger.credit address amount = .error (.balanceOverflow (key address)) := by
  rw [credit, checkedAdd_of_not overflow]

theorem held_debit (done : ledger.debit address amount = .ok (balance, after)) :
    after.held = ledger.held.update (key address) ((ledger.balanceOf address).toNat - amount.toNat) := by
  simp only [debit] at done
  split at done
  · cases done
  rename_i covered
  have difference : (ledger.balanceOf address - amount).toNat = (ledger.balanceOf address).toNat - amount.toNat :=
    BitVec.toNat_sub_of_le (BitVec.not_lt.mp covered)
  cases done
  rw [held, ← difference]
  split
  · rename_i emptied
    rw [Ledger.ofMap_erase, emptied]
    rfl
  · rw [Ledger.ofMap_insert]
    rfl

theorem debit_of_le (covered : amount.toNat ≤ (ledger.balanceOf address).toNat) :
    ∃ balance after, ledger.debit address amount = .ok (balance, after) := by
  have enough : ¬ ledger.balanceOf address < amount := BitVec.not_lt.mpr (BitVec.le_def.mpr covered)
  rw [debit, if_neg enough]
  exact ⟨_, _, rfl⟩

theorem debit_of_not (short : ¬ amount.toNat ≤ (ledger.balanceOf address).toNat) :
    ∃ error, ledger.debit address amount = .error error := by
  have less : ledger.balanceOf address < amount := lt_def.mpr (not_le.mp short)
  rw [debit, if_pos less]
  exact ⟨_, rfl⟩

end TokenLedger

structure AllowanceTable where
  entries : HashMap (String × String) U128

namespace AllowanceTable

def empty : AllowanceTable := ⟨∅⟩

def key (owner spender : Address) : String × String := (TokenLedger.key owner, TokenLedger.key spender)

def set (table : AllowanceTable) (owner spender : Address) (amount : U128) : AllowanceTable :=
  ⟨if amount = 0 then table.entries.erase (key owner spender) else table.entries.insert (key owner spender) amount⟩

def get (table : AllowanceTable) (owner spender : Address) : U128 := (table.entries.lookup (key owner spender)).getD 0

variable {owner owner' spender spender' : Address}

theorem key_injective (same : key owner spender = key owner' spender') : owner = owner' ∧ spender = spender' :=
  ⟨TokenLedger.key_injective (Prod.mk.inj same).1, TokenLedger.key_injective (Prod.mk.inj same).2⟩

theorem get_set_self (table : AllowanceTable) (owner spender : Address) (amount : U128) :
    (table.set owner spender amount).get owner spender = amount := by
  unfold set get
  split
  · rename_i zero
    rw [AList.lookup_erase, zero]
    rfl
  · rw [AList.lookup_insert]
    rfl

theorem get_set_of_ne (table : AllowanceTable) (amount : U128) (apart : ¬ (owner' = owner ∧ spender' = spender)) :
    (table.set owner spender amount).get owner' spender' = table.get owner' spender' := by
  have keys : key owner' spender' ≠ key owner spender := fun same => apart (key_injective same)
  unfold set get
  split
  · rw [AList.lookup_erase_ne keys]
  · rw [AList.lookup_insert_ne keys]

end AllowanceTable

end Bleep.Pat
