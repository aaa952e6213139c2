import Bleep.Pat.Engine
import Bleep.Library.Runs

namespace Bleep.Pat

open HashTable Words Results

structure PATRegistry where
  tokens : HashMap String PATToken
  ledgers : HashMap String TokenLedger
  allowances : HashMap String AllowanceTable
  events : List PATEvent
  seenIntents : List Hash32
  seenNonces : List (Address × U64)
  gas : PATGasModel

namespace PATRegistry

variable (codec : PATCodec)

def new : PATRegistry := ⟨∅, ∅, ∅, [], [], [], {}⟩

def withGasModel (gas : PATGasModel) : PATRegistry := { new with gas }

variable (self : PATRegistry)

def view : RegistryView := ⟨self.tokens, self.ledgers, self.allowances⟩

/-- A token must exist exactly for the intents that do not create it. -/
def existence (kind : PATIntentKind) : Except PATError Unit :=
  match kind with
  | .createToken i =>
    if (self.tokens.lookup i.symbol).isSome then .error (.tokenAlreadyExists i.symbol) else .ok ()
  | kind =>
    if (self.tokens.lookup kind.symbol).isSome then .ok () else .error (.tokenNotFound kind.symbol)

/-- The part of `execute` that changes nothing. -/
def admitted (now : U64) (intent : PATIntent) : Except PATError PATOutcome := do
  ensure (intent.canonicalHash codec ∉ self.seenIntents) .duplicateIntent
  self.existence intent.kind
  PATEngine.execute codec now self.gas intent self.view

/-- The token of a `CreateToken` is put in place before the diff is applied. -/
def materialise (createdAt : U64) (intent : PATIntent) : Except PATError PATRegistry :=
  match intent.kind with
  | .createToken i => do
    let token ← PATToken.new codec.sha256 i.symbol i.name i.decimals intent.caller i.totalSupplyCap i.burnRateBps
      i.freezable createdAt
    return { self with
      tokens := self.tokens.insert i.symbol token
      ledgers := self.ledgers.insert i.symbol .empty
      allowances := self.allowances.insert i.symbol .empty }
  | _ => .ok self

/-- A delta is a credit or a debit by its sign as an `i128`; the negation
wraps. -/
def applyBalance (delta : BalanceDelta) : Except PATError PATRegistry :=
  match self.ledgers.lookup delta.symbol with
  | none => .error (.tokenNotFound delta.symbol)
  | some ledger =>
    match if 0 ≤ delta.delta.toInt then ledger.credit delta.address delta.delta
      else ledger.debit delta.address (-delta.delta) with
    | .error e => .error e
    | .ok (_, ledger) => .ok { self with ledgers := self.ledgers.insert delta.symbol ledger }

def supplyAfter (supply : U128) (delta : I128) : Option U128 :=
  if 0 ≤ delta.toInt then checkedAdd supply delta else some (saturatingSub supply (-delta))

/-- The supply is written before the burned total is checked. -/
def applySupply (delta : SupplyDelta) : Except PATError Unit × PATRegistry :=
  match self.tokens.lookup delta.symbol with
  | none => (.error (.tokenNotFound delta.symbol), self)
  | some token =>
    match supplyAfter token.currentSupply delta.supplyDelta with
    | none => (.error (.balanceOverflow delta.symbol), self)
    | some supply =>
      match checkedAdd token.totalBurned delta.burnedAdd with
      | none => (.error (.balanceOverflow delta.symbol),
          { self with tokens := self.tokens.insert delta.symbol { token with currentSupply := supply } })
      | some burned => (.ok (), { self with
          tokens := self.tokens.insert delta.symbol
            (PATToken.recomputeHash codec.sha256 { token with currentSupply := supply, totalBurned := burned }) })

def applyAllowance (update : AllowanceUpdate) : Except PATError PATRegistry := do
  let table ← okOr (self.allowances.lookup update.symbol) (.tokenNotFound update.symbol)
  return { self with
    allowances := self.allowances.insert update.symbol (table.set update.owner update.spender update.newValue) }

/-- A token that is not there is passed by. -/
def changeToken (symbol : String) (change : PATToken → PATToken) : PATRegistry :=
  match self.tokens.lookup symbol with
  | none => self
  | some token => { self with tokens := self.tokens.insert symbol ((change token).recomputeHash codec.sha256) }

def applyMutation : TokenMutation → PATRegistry
  | .setFrozen symbol frozen => self.changeToken codec symbol fun token => { token with frozen }
  | .setBurnRate symbol newBps => self.changeToken codec symbol fun token => { token with burnRateBps := newBps }
  | .setOwner symbol newOwner => self.changeToken codec symbol fun token => { token with owner := newOwner }
  | .createToken _ => self

def applyDiff (diff : PATStateDiff) : Except PATError Unit × PATRegistry :=
  andThen (inPlace (orUnchanged applyBalance) diff.balanceDeltas self) fun self =>
  andThen (inPlace (applySupply codec) diff.supplyDeltas self) fun self =>
  andThen (inPlace (orUnchanged applyAllowance) diff.allowanceUpdates self) fun self =>
  let self := diff.tokenMutations.foldl (applyMutation codec) self
  (.ok (), { self with events := self.events ++ diff.events })

def execute (now createdAt : U64) (intent : PATIntent) :
    Except PATError PATOutcome × PATRegistry :=
  match self.admitted codec now intent with
  | .error e => (.error e, self)
  | .ok outcome =>
    match self.materialise codec createdAt intent with
    | .error e => (.error e, self)
    | .ok self =>
      match self.applyDiff codec outcome.diff with
      | (.error e, self) => (.error e, self)
      | (.ok (), self) => (.ok outcome, { self with seenIntents := intent.canonicalHash codec :: self.seenIntents })

/-- For intents whose wallet signature the caller has verified: a nonce is used
up by a success. -/
def executeSigned (now createdAt : U64) (intent : PATIntent) :
    Except PATError PATOutcome × PATRegistry :=
  if intent.nonce = 0 ∨ self.seenNonces.contains (intent.caller, intent.nonce) then (.error .duplicateIntent, self)
  else
    match self.execute codec now createdAt intent with
    | (.error e, self) => (.error e, self)
    | (.ok outcome, self) =>
      (.ok outcome, { self with seenNonces := (intent.caller, intent.nonce) :: self.seenNonces })

def balanceOf (self : PATRegistry) (symbol : String) (address : Address) : U128 :=
  (self.ledgers.lookup symbol).elim 0 fun ledger => ledger.balanceOf address

def allowance (self : PATRegistry) (symbol : String) (owner spender : Address) : U128 :=
  self.view.allowance symbol owner spender

end PATRegistry

/-- An intent and what the clock shows when it is executed. -/
structure PATCall where
  intent : PATIntent
  now : U64
  createdAt : U64

namespace PATCall

variable (codec : PATCodec)

def result (self : PATRegistry) (call : PATCall) : Except PATError PATOutcome :=
  (self.execute codec call.now call.createdAt call.intent).1

def apply (self : PATRegistry) (call : PATCall) : PATRegistry :=
  (self.execute codec call.now call.createdAt call.intent).2

end PATCall

def PATRegistry.run (codec : PATCodec) (self : PATRegistry) (calls : List PATCall) : PATRegistry :=
  calls.foldl (PATCall.apply codec) self

end Bleep.Pat
