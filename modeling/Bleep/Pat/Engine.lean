import Bleep.Pat.Token
import Bleep.Library.Results
import Bleep.Vm.Transfer

namespace Bleep.Pat

open HashTable Words Results

structure CreateTokenIntent where
  symbol : String
  name : String
  decimals : BitVec 8
  totalSupplyCap : U128
  burnRateBps : U16
  freezable : Bool

structure MintIntent where
  symbol : String
  «to» : Address
  amount : U128

structure BurnIntent where
  symbol : String
  amount : U128

structure TransferIntent where
  symbol : String
  «to» : Address
  amount : U128
  memo : Option Bytes

structure ApproveIntent where
  symbol : String
  spender : Address
  amount : U128

structure TransferFromIntent where
  symbol : String
  «from» : Address
  «to» : Address
  amount : U128

structure FreezeIntent where
  symbol : String
  frozen : Bool

structure UpdateBurnRateIntent where
  symbol : String
  newRateBps : U16

structure TransferOwnershipIntent where
  symbol : String
  newOwner : Address

inductive PATIntentKind
  | createToken (intent : CreateTokenIntent)
  | mint (intent : MintIntent)
  | burn (intent : BurnIntent)
  | transfer (intent : TransferIntent)
  | approve (intent : ApproveIntent)
  | transferFrom (intent : TransferFromIntent)
  | freeze (intent : FreezeIntent)
  | updateBurnRate (intent : UpdateBurnRateIntent)
  | transferOwnership (intent : TransferOwnershipIntent)

def PATIntentKind.symbol : PATIntentKind → String
  | createToken i => i.symbol
  | mint i => i.symbol
  | burn i => i.symbol
  | transfer i => i.symbol
  | approve i => i.symbol
  | transferFrom i => i.symbol
  | freeze i => i.symbol
  | updateBurnRate i => i.symbol
  | transferOwnership i => i.symbol

structure PATIntent where
  caller : Address
  kind : PATIntentKind
  gasLimit : U64
  block : U64
  nonce : U64

structure PATGasModel where
  createTokenBase : U64 := 50000
  createTokenPerSymbol : U64 := 10
  mintBase : U64 := 21000
  burnBase : U64 := 15000
  transferBase : U64 := 21000
  transferPerMemoByte : U64 := 5
  approveBase : U64 := 15000
  transferFromBase : U64 := 25000
  freezeBase : U64 := 10000
  updateBurnRateBase : U64 := 10000
  transferOwnershipBase : U64 := 20000

namespace PATGasModel

def cost (gas : PATGasModel) : PATIntentKind → U64
  | .createToken i => gas.createTokenBase + BitVec.ofNat 64 i.symbol.utf8ByteSize * gas.createTokenPerSymbol
  | .mint _ => gas.mintBase
  | .burn _ => gas.burnBase
  | .transfer i => gas.transferBase + BitVec.ofNat 64 (i.memo.elim 0 List.length) * gas.transferPerMemoByte
  | .approve _ => gas.approveBase
  | .transferFrom _ => gas.transferFromBase
  | .freeze _ => gas.freezeBase
  | .updateBurnRate _ => gas.updateBurnRateBase
  | .transferOwnership _ => gas.transferOwnershipBase

def charge (gas : PATGasModel) (kind : PATIntentKind) (gasLimit : U64) : Except PATError U64 :=
  let cost := gas.cost kind
  if gasLimit < cost then .error (.outOfGas gasLimit cost) else .ok cost

end PATGasModel

inductive PATEvent
  | tokenCreated (symbol : String) (owner : Address) (cap : U128) (burnBps : U16) (ts : U64)
  | mint (symbol : String) («to» : Address) (amount : U128) (ts : U64)
  | burn (symbol : String) («from» : Address) (amount : U128) (ts : U64)
  | transfer (symbol : String) («from» «to» : Address) (amountSent amountRcvd burnDeducted : U128) (ts : U64)
  | approve (symbol : String) (owner spender : Address) (amount : U128) (ts : U64)
  | transferFrom (symbol : String) («from» «to» spender : Address) (amountSent amountRcvd burnDeducted : U128) (ts : U64)
  | frozen (symbol : String) (frozen : Bool) (ts : U64)
  | burnRateUpdated (symbol : String) (oldBps newBps : U16) (ts : U64)
  | ownershipTransferred (symbol : String) (oldOwner newOwner : Address) (ts : U64)

/-- The change of a balance, an `i128`. -/
structure BalanceDelta where
  symbol : String
  address : Address
  delta : I128

structure SupplyDelta where
  symbol : String
  supplyDelta : I128
  burnedAdd : U128

structure AllowanceUpdate where
  symbol : String
  owner : Address
  spender : Address
  newValue : U128

inductive TokenMutation
  | setFrozen (symbol : String) (frozen : Bool)
  | setBurnRate (symbol : String) (newBps : U16)
  | setOwner (symbol : String) (newOwner : Address)
  | createToken (symbol : String)

structure PATStateDiff where
  balanceDeltas : List BalanceDelta := []
  supplyDeltas : List SupplyDelta := []
  allowanceUpdates : List AllowanceUpdate := []
  tokenMutations : List TokenMutation := []
  events : List PATEvent := []
  gasUsed : U64 := 0
  diffHash : Hash32 := Vector.replicate 32 0

structure PATOutcome where
  success : Bool
  diff : PATStateDiff
  returnValue : Option U128
  revert : Option String
  gasUsed : U64

/-- The digest and the two encodings by `bincode`, empty when they fail. -/
structure PATCodec where
  sha256 : Bytes → Hash32
  encodeIntent : PATIntent → Bytes
  encodeDiff : PATStateDiff → Bytes

variable (codec : PATCodec)

def PATIntent.canonicalHash (intent : PATIntent) : Hash32 :=
  codec.sha256 (codec.encodeIntent intent)

def PATStateDiff.finalise (diff : PATStateDiff) : PATStateDiff :=
  { diff with diffHash := codec.sha256 (codec.encodeDiff { diff with diffHash := Vector.replicate 32 0 }) }

/-- `PATOutcome::success` on a finalised diff. -/
def PATOutcome.succeed (diff : PATStateDiff) (returnValue : Option U128) : PATOutcome :=
  ⟨true, diff.finalise codec, returnValue, none, diff.gasUsed⟩

structure RegistryView where
  tokens : HashMap String PATToken
  ledgers : HashMap String TokenLedger
  allowances : HashMap String AllowanceTable

namespace RegistryView

variable (view : RegistryView)

variable (symbol : String)

def token : Except PATError PATToken :=
  okOr (view.tokens.lookup symbol) (.tokenNotFound symbol)

def ledger : Except PATError TokenLedger :=
  okOr (view.ledgers.lookup symbol) (.tokenNotFound symbol)

/-- The allowance, nothing where no table is found. -/
def allowance (owner spender : Address) : U128 :=
  (view.allowances.lookup symbol).elim 0 fun table => table.get owner spender

end RegistryView

/-- The deltas of a transfer, whoever asks for it. The receiver gets what is not
burned. -/
def transferBalances (symbol : String) («from» «to» : Address) (amount burned : U128) : List BalanceDelta :=
  [⟨symbol, «from», -amount⟩, ⟨symbol, «to», amount - burned⟩]

def transferSupply (symbol : String) (burned : U128) : List SupplyDelta :=
  if 0 < burned then [⟨symbol, -burned, burned⟩] else []

namespace PATEngine

variable (codec : PATCodec) (now : U64)

def execCreateToken (i : CreateTokenIntent) (caller : Address) (gasUsed : U64) : Except PATError PATOutcome := do
  PATToken.validate i.symbol i.name i.decimals i.burnRateBps
  return .succeed codec
    { gasUsed
      tokenMutations := [.createToken i.symbol]
      events := [.tokenCreated i.symbol caller i.totalSupplyCap i.burnRateBps now] } none

/-- The check of the supply cap; a cap of 0 is none. -/
def withinCap (token : PATToken) (amount : U128) : Except PATError Unit :=
  if 0 < token.totalSupplyCap then
    let newSupply := saturatingAdd token.currentSupply amount
    if token.totalSupplyCap < newSupply then .error (.supplyCapExceeded token.totalSupplyCap newSupply) else .ok ()
  else .ok ()

/-- The amounts become `i128` by a cast. -/
def execMint (i : MintIntent) (caller : Address) (gasUsed : U64) (view : RegistryView) :
    Except PATError PATOutcome := do
  ensure (i.amount ≠ 0) .zeroAmount
  let token ← view.token i.symbol
  ensure (token.owner = caller) (.unauthorized (Hex.encode caller.toList))
  withinCap token i.amount
  return .succeed codec
    { gasUsed
      balanceDeltas := [⟨i.symbol, i.to, i.amount⟩]
      supplyDeltas := [⟨i.symbol, i.amount, 0⟩]
      events := [.mint i.symbol i.to i.amount now] } (some i.amount)

def execBurn (i : BurnIntent) (caller : Address) (gasUsed : U64) (view : RegistryView) :
    Except PATError PATOutcome := do
  ensure (i.amount ≠ 0) .zeroAmount
  let ledger ← view.ledger i.symbol
  ensure (i.amount ≤ ledger.balanceOf caller) (.insufficientBalance (ledger.balanceOf caller) i.amount)
  return .succeed codec
    { gasUsed
      balanceDeltas := [⟨i.symbol, caller, -i.amount⟩]
      supplyDeltas := [⟨i.symbol, -i.amount, i.amount⟩]
      events := [.burn i.symbol caller i.amount now] } none

def execTransfer (i : TransferIntent) (caller : Address) (gasUsed : U64) (view : RegistryView) :
    Except PATError PATOutcome := do
  ensure (i.amount ≠ 0) .zeroAmount
  ensure (caller ≠ i.to) .selfTransfer
  ensure (i.memo.elim 0 List.length ≤ 128) (.memoTooLong (i.memo.elim 0 List.length))
  let token ← view.token i.symbol
  ensure (token.frozen = false) (.frozen i.symbol)
  let ledger ← view.ledger i.symbol
  ensure (i.amount ≤ ledger.balanceOf caller) (.insufficientBalance (ledger.balanceOf caller) i.amount)
  let burned := token.transferBurnAmount i.amount
  return .succeed codec
    { gasUsed
      balanceDeltas := transferBalances i.symbol caller i.to i.amount burned
      supplyDeltas := transferSupply i.symbol burned
      events := [.transfer i.symbol caller i.to i.amount (i.amount - burned) burned now] } (some (i.amount - burned))

def execApprove (i : ApproveIntent) (caller : Address) (gasUsed : U64) (view : RegistryView) :
    Except PATError PATOutcome := do
  let _ ← view.token i.symbol
  return .succeed codec
    { gasUsed
      allowanceUpdates := [⟨i.symbol, caller, i.spender, i.amount⟩]
      events := [.approve i.symbol caller i.spender i.amount now] } none

def execTransferFrom (i : TransferFromIntent) (caller : Address) (gasUsed : U64) (view : RegistryView) :
    Except PATError PATOutcome := do
  ensure (i.amount ≠ 0) .zeroAmount
  ensure (i.from ≠ i.to) .selfTransfer
  let token ← view.token i.symbol
  ensure (token.frozen = false) (.frozen i.symbol)
  let allowance := view.allowance i.symbol i.from caller
  ensure (i.amount ≤ allowance) (.insufficientAllowance allowance i.amount)
  let ledger ← view.ledger i.symbol
  ensure (i.amount ≤ ledger.balanceOf i.from) (.insufficientBalance (ledger.balanceOf i.from) i.amount)
  let burned := token.transferBurnAmount i.amount
  return .succeed codec
    { gasUsed
      balanceDeltas := transferBalances i.symbol i.from i.to i.amount burned
      supplyDeltas := transferSupply i.symbol burned
      allowanceUpdates := [⟨i.symbol, i.from, caller, allowance - i.amount⟩]
      events := [.transferFrom i.symbol i.from i.to caller i.amount (i.amount - burned) burned now] }
    (some (i.amount - burned))

def execFreeze (i : FreezeIntent) (caller : Address) (gasUsed : U64) (view : RegistryView) :
    Except PATError PATOutcome := do
  let token ← view.token i.symbol
  ensure (token.owner = caller) (.unauthorized (Hex.encode caller.toList))
  ensure (token.freezable = true) (.notFreezable i.symbol)
  return .succeed codec
    { gasUsed
      tokenMutations := [.setFrozen i.symbol i.frozen]
      events := [.frozen i.symbol i.frozen now] } none

def execUpdateBurnRate (i : UpdateBurnRateIntent) (caller : Address) (gasUsed : U64) (view : RegistryView) :
    Except PATError PATOutcome := do
  ensure (i.newRateBps ≤ 1000) (.invalidBurnRate i.newRateBps)
  let token ← view.token i.symbol
  ensure (token.owner = caller) (.unauthorized (Hex.encode caller.toList))
  return .succeed codec
    { gasUsed
      tokenMutations := [.setBurnRate i.symbol i.newRateBps]
      events := [.burnRateUpdated i.symbol token.burnRateBps i.newRateBps now] } none

def execTransferOwnership (i : TransferOwnershipIntent) (caller : Address) (gasUsed : U64) (view : RegistryView) :
    Except PATError PATOutcome := do
  let token ← view.token i.symbol
  ensure (token.owner = caller) (.unauthorized (Hex.encode caller.toList))
  return .succeed codec
    { gasUsed
      tokenMutations := [.setOwner i.symbol i.newOwner]
      events := [.ownershipTransferred i.symbol token.owner i.newOwner now] } none

/-- The match of `execute` on the kind of intent. -/
def dispatch (caller : Address) (gasUsed : U64) (view : RegistryView) : PATIntentKind → Except PATError PATOutcome
  | .createToken i => execCreateToken codec now i caller gasUsed
  | .mint i => execMint codec now i caller gasUsed view
  | .burn i => execBurn codec now i caller gasUsed view
  | .transfer i => execTransfer codec now i caller gasUsed view
  | .approve i => execApprove codec now i caller gasUsed view
  | .transferFrom i => execTransferFrom codec now i caller gasUsed view
  | .freeze i => execFreeze codec now i caller gasUsed view
  | .updateBurnRate i => execUpdateBurnRate codec now i caller gasUsed view
  | .transferOwnership i => execTransferOwnership codec now i caller gasUsed view

def execute (gas : PATGasModel) (intent : PATIntent) (view : RegistryView) : Except PATError PATOutcome := do
  let gasUsed ← gas.charge intent.kind intent.gasLimit
  dispatch codec now intent.caller gasUsed view intent.kind

end PATEngine

end Bleep.Pat
